import Opensquid.Loop.GateDispatch

/-!
# Compiling a pack

The machines of a pack and of its flows: the authored transitions are taken over and checked,
every state gets its entry in the table of the dispatch, and every event that a state emits has
to be routed by some transition, every guard and every flow to be registered.

The check of the events is one for the whole machine. `routed_iff` is when an event is routed
from the state that emits it, and `no_dead_end_iff` says it of a pack that compiles;
`unrouted_from_other_state` is a pack in which two states emit the same event.
-/

namespace Opensquid.Packs

open Opensquid.Lib.PathText
open Opensquid.Machine Opensquid.Loop

/-! ## Packs -/

inductive StateV2
  | executor (executor : Option String) (completion emits : String)
  | gate (guard : String) (trigger : Option (List String)) (onPassEmits : String) (onFail : OnFail)
  | decision (branches : List DecisionBranch)
  | subFlow (flow emits : String)
  | terminal (outcome : Outcome)
  deriving DecidableEq, Repr

/-- A machine as the schema accepts it: a record of states, and transitions with a target. -/
structure FsmV2 where
  initial : String
  states : List (String × StateV2)
  transitions : List Transition
  distinct : (states.map Prod.fst).Nodup := by decide
  targeted : ∀ t ∈ transitions, t.to ≠ "" := by decide

structure PackV2 where
  name : String
  fsm : Option FsmV2 := none
  flows : Option (List (String × FsmV2)) := none
  guards : List (String × String) := []

/-- The machine in the engine's format. -/
def FsmV2.engine (machine : FsmV2) : Fsm :=
  ⟨machine.initial, machine.states.map Prod.fst, machine.transitions⟩

/-! ## The compiler -/

/-- The entry of a state in the table. -/
def StateV2.entry : StateV2 → StateMeta
  | .executor ref _ emits => { kind := .executor, executor := ref, emits := some emits }
  | .gate guard trigger onPassEmits onFail =>
      { kind := .gate, guard := some guard, trigger, emits := some onPassEmits, onFail := some onFail }
  | .decision branches => { kind := .decision, branches := some branches }
  | .subFlow flow emits => { kind := .subFlow, flow := some flow, emits := some emits }
  | .terminal outcome => { kind := .terminal, outcome := some outcome }

/-- The events that the dispatch may emit for an entry. -/
def emittedBy (entry : StateMeta) : List String :=
  entry.emits.toList ++ (entry.branches.getD []).map DecisionBranch.emits

def StateV2.guardRefs : StateV2 → List String
  | .gate guard .. => [guard]
  | .decision branches => branches.filterMap fun
      | .guarded guard _ => some guard
      | .otherwise _ => none
  | .executor .. | .subFlow .. | .terminal _ => []

/-- The first event that two branches emit. -/
def duplicateEmit : List DecisionBranch → Option String
  | [] => none
  | branch :: rest =>
      if branch.emits ∈ rest.map DecisionBranch.emits then some branch.emits else duplicateEmit rest

/-- A decision whose branches emit the same event, with the event. -/
def collision (states : List (String × StateV2)) : Option (String × String) :=
  states.findSome? fun (name, state) =>
    match state with
    | .decision branches => (duplicateEmit branches).map fun emits => (name, emits)
    | .executor .. | .gate .. | .subFlow .. | .terminal _ => none

structure CompiledMachine where
  fsm : Option Fsm := none
  entries : List (String × StateMeta) := []
  guardExprs : List (String × String) := []

def CompiledMachine.entryOf (machine : CompiledMachine) (state : String) : Option StateMeta :=
  machine.entries.lookup state

/-- The events of the machine that no transition is on. -/
def FsmV2.unrouted (machine : FsmV2) : List String :=
  (machine.states.flatMap fun s => emittedBy s.2.entry).eraseDups.filter fun e =>
    some e ∉ machine.transitions.map Transition.on

def compileMachine (pack : PackV2) : Option FsmV2 → Except String CompiledMachine
  | none => .ok {}
  | some machine =>
      let errors := validateFsm machine.engine
      if errors ≠ [] then
        .error ("pack " ++ pack.name ++ ": invalid FSM — " ++ "; ".intercalate errors)
      else
        match collision machine.states with
        | some (state, emits) =>
            .error ("pack " ++ pack.name ++ ": decision '" ++ state ++
              "' has duplicate branch emit '" ++ emits ++ "'")
        | none =>
            if machine.unrouted ≠ [] then
              .error ("pack " ++ pack.name ++ ": emitted but unrouted events — " ++
                ", ".intercalate machine.unrouted)
            else
              match (machine.states.flatMap fun s => s.2.guardRefs).find? fun ref =>
                  ref ∉ pack.guards.map Prod.fst with
              | some ref =>
                  .error ("pack " ++ pack.name ++ ": guard ref '" ++ ref ++
                    "' not in the guards registry")
              | none => .ok
                  { fsm := some machine.engine
                    entries := machine.states.map fun (name, state) => (name, state.entry)
                    guardExprs := pack.guards }

/-- The machine of the pack, and the registry that all machines share. -/
structure CompiledPack where
  machine : CompiledMachine
  flows : Option (List (String × CompiledMachine)) := none

/-- The sub-flows of a machine that have no entry in the registry. -/
def unregistered (flows : List (String × FsmV2)) (machine : FsmV2) : List (String × String) :=
  machine.states.filterMap fun (name, state) =>
    match state with
    | .subFlow flow _ => if flow ∈ flows.map Prod.fst then none else some (name, flow)
    | .executor .. | .gate .. | .decision _ | .terminal _ => none

/-- A flow is compiled like a pack of its own, with the guards of the pack. -/
def compileFlow (pack : PackV2) (flow : String × FsmV2) : Except String (String × CompiledMachine) := do
  return (flow.1, ← compileMachine pack (some flow.2))

def compilePackV2 (pack : PackV2) : Except String CompiledPack := do
  let machine ← compileMachine pack pack.fsm
  match pack.flows with
  | none => return { machine }
  | some flows =>
      let compiled ← flows.mapM (compileFlow pack)
      match (pack.fsm.toList ++ flows.map Prod.snd).flatMap (unregistered flows) with
      | (state, flow) :: _ =>
          .error ("pack " ++ pack.name ++ ": sub_flow '" ++ state ++ "' -> flow '" ++ flow ++
            "' resolves to no registered nested machine")
      | [] => return { machine, flows := some compiled }

/-- All machines of a compiled pack. -/
def CompiledPack.machines (pack : CompiledPack) : List CompiledMachine :=
  pack.machine :: (pack.flows.getD []).map Prod.snd

/-! ## What is accepted -/

variable {pack : PackV2} {compiled : CompiledPack} {machine : CompiledMachine} {source : FsmV2}
  {fsm : Fsm} {s e : String}

/-- A compiled machine, its source, and what has been checked. -/
structure CompiledFrom (pack : PackV2) (source : FsmV2) (machine : CompiledMachine) : Prop where
  fsm : machine.fsm = some source.engine
  entries : machine.entries = source.states.map fun (name, state) => (name, state.entry)
  valid : validateFsm source.engine = []
  routed : source.unrouted = []
  guarded : ∀ s ∈ source.states, ∀ ref ∈ s.2.guardRefs, ref ∈ pack.guards.map Prod.fst

theorem compiledFrom (accepted : compileMachine pack (some source) = .ok machine) :
    CompiledFrom pack source machine := by
  unfold compileMachine at accepted
  dsimp only at accepted
  split at accepted
  · cases accepted
  · rename_i valid
    split at accepted
    · cases accepted
    · split at accepted
      · cases accepted
      · rename_i routed
        split at accepted
        · cases accepted
        · rename_i resolved
          cases accepted
          refine ⟨rfl, rfl, not_not.mp valid, not_not.mp routed, fun s mem ref refs => ?_⟩
          have found := List.find?_eq_none.mp resolved ref
            (List.mem_flatMap.mpr ⟨s, mem, refs⟩)
          simpa using found

theorem mapM_ok {α β : Type} {f : α → Except String β} {xs : List α} {ys : List β}
    (done : xs.mapM f = .ok ys) : ∀ y ∈ ys, ∃ x ∈ xs, f x = .ok y := by
  induction xs generalizing ys with
  | nil =>
      cases done
      exact fun _ mem => by cases mem
  | cons x xs ih =>
      rw [List.mapM_cons] at done
      cases first : f x with
      | error message =>
          rw [first] at done
          cases done
      | ok y =>
          rw [first] at done
          cases rest : xs.mapM f with
          | error message =>
              rw [rest] at done
              cases done
          | ok more =>
              rw [rest] at done
              cases done
              intro z mem
              rcases List.mem_cons.mp mem with rfl | later
              · exact ⟨x, List.mem_cons_self, first⟩
              · obtain ⟨w, known, here⟩ := ih rest z later
                exact ⟨w, List.mem_cons_of_mem _ known, here⟩

/-- A machine that has an FSM has a source. -/
theorem source_of_compileMachine {root : Option FsmV2}
    (accepted : compileMachine pack root = .ok machine) (present : machine.fsm = some fsm) :
    ∃ source, CompiledFrom pack source machine := by
  cases root with
  | none =>
      cases accepted
      cases present
  | some source => exact ⟨source, compiledFrom accepted⟩

theorem source_of_compileFlow {flow : String × FsmV2} {name : String}
    (accepted : compileFlow pack flow = .ok (name, machine)) :
    ∃ source, CompiledFrom pack source machine := by
  unfold compileFlow at accepted
  cases own : compileMachine pack (some flow.2) with
  | error message =>
      rw [own] at accepted
      cases accepted
  | ok compiled =>
      rw [own] at accepted
      cases accepted
      exact ⟨flow.2, compiledFrom own⟩

/-- Every machine of a compiled pack that has an FSM is compiled from one of the pack's. -/
theorem exists_source (accepted : compilePackV2 pack = .ok compiled)
    (mem : machine ∈ compiled.machines) (present : machine.fsm = some fsm) :
    ∃ source, CompiledFrom pack source machine := by
  rw [compilePackV2] at accepted
  cases own : compileMachine pack pack.fsm with
  | error message =>
      rw [own] at accepted
      cases accepted
  | ok root =>
      rw [own] at accepted
      cases flows : pack.flows with
      | none =>
          simp only [flows] at accepted
          cases accepted
          rcases List.mem_cons.mp mem with rfl | other
          · exact source_of_compileMachine own present
          · cases other
      | some registry =>
          simp only [flows] at accepted
          cases nested : registry.mapM (compileFlow pack) with
          | error message =>
              rw [nested] at accepted
              cases accepted
          | ok children =>
              rw [nested] at accepted
              dsimp only [bind, Except.bind] at accepted
              split at accepted
              · cases accepted
              · cases accepted
                rcases List.mem_cons.mp mem with rfl | child
                · exact source_of_compileMachine own present
                · obtain ⟨⟨name, _⟩, listed, rfl⟩ := List.mem_map.mp child
                  obtain ⟨flow, -, done⟩ := mapM_ok nested _ listed
                  exact source_of_compileFlow done

/-! ## Where an event leads -/

/-- The first transition on the event from the state, or from any. -/
def ownTransition (fsm : Fsm) (s e : String) : Option Transition :=
  fsm.transitions.find? fun t => t.on = some e ∧ (t.from = s ∨ t.from = ANY_STATE)

/-- The first transition on the event from a path at the state or above it, or from any. -/
def takenTransition (fsm : Fsm) (s e : String) : Option Transition :=
  fsm.transitions.find? fun t =>
    t.on = some e ∧ (t.from = ANY_STATE ∨ segs PATH_SEP t.from <+: segs PATH_SEP s)

/-- The dispatch goes where the state's own transition leads. -/
def Routed (fsm : Fsm) (s e : String) : Prop :=
  ∃ own ∈ ownTransition fsm s e, transitionOn fsm s e = some own.to

/-- The state has a transition of its own on the event, to another state that is no path, and
the transition that is taken leads there too. -/
def Leaves (fsm : Fsm) (s e : String) : Prop :=
  ∃ own ∈ ownTransition fsm s e, own.to ≠ s ∧ PATH_SEP ∉ own.to.toList ∧
    ∃ taken ∈ takenTransition fsm s e, taken.to = own.to

instance : Decidable (Routed fsm s e) :=
  inferInstanceAs (Decidable (∃ own ∈ ownTransition fsm s e, transitionOn fsm s e = some own.to))

instance : Decidable (Leaves fsm s e) :=
  inferInstanceAs (Decidable (∃ own ∈ ownTransition fsm s e, own.to ≠ s ∧
    PATH_SEP ∉ own.to.toList ∧ ∃ taken ∈ takenTransition fsm s e, taken.to = own.to))

theorem firstTransition_fst {pass : Transition → Bool} {transitions : List Transition} :
    (firstTransition pass transitions).map Prod.fst = transitions.find? pass := by
  have listed : transitions = transitions.zipIdx.map Prod.fst := (List.zipIdx_map_fst ..).symm
  conv_rhs => rw [listed]
  rw [List.find?_map]
  rfl

theorem takenTransition_eq : takenTransition fsm s e =
    (firstTransition (enabled [s] e none) fsm.transitions).map Prod.fst := by
  rw [firstTransition_fst, takenTransition]
  congr 1
  funext t
  have guarded : guardHolds none t = true := by
    unfold guardHolds
    cases t.when <;> rfl
  refine decide_eq_decide.mpr (and_congr_right fun _ => ?_)
  rw [guarded, isActive_iff]
  simp only [List.mem_singleton, exists_eq_left, and_true]

/-- What the engine makes of an event. -/
theorem transitionOn_eq (valid : validateFsm fsm = []) : transitionOn fsm s e =
    (takenTransition fsm s e).bind fun t =>
      if PATH_SEP ∈ t.to.toList then some "" else if t.to = s then none else some t.to := by
  rw [takenTransition_eq]
  unfold transitionOn
  cases fires : firstTransition (enabled [s] e none) fsm.transitions with
  | none =>
      rw [stepFlat_of_stays fires]
      rfl
  | some found =>
      obtain ⟨t, i⟩ := found
      rw [stepFlat_of_fires valid fires, Option.map_some, Option.bind_some]
      by_cases split : PATH_SEP ∈ t.to.toList
      · simp only [if_pos split, if_true]
        rfl
      · simp only [if_neg split, decide_eq_true_eq, ne_eq]
        by_cases stays : t.to = s
        · rw [if_pos stays, if_neg (not_not.mpr stays)]
          rfl
        · rw [if_neg stays, if_pos stays]
          rfl

theorem routed_iff (valid : validateFsm fsm = []) (targeted : ∀ t ∈ fsm.transitions, t.to ≠ "") :
    Routed fsm s e ↔ Leaves fsm s e := by
  refine exists_congr fun own => and_congr_right fun first => ?_
  rw [transitionOn_eq valid]
  constructor
  · intro leads
    obtain ⟨taken, found, leads⟩ := Option.bind_eq_some_iff.mp leads
    split at leads
    · injection leads with empty
      exact absurd empty.symm (targeted own (List.mem_of_find?_eq_some first))
    · rename_i plain
      split at leads
      · cases leads
      · rename_i other
        injection leads with same
        rw [← same]
        exact ⟨other, plain, taken, found, rfl⟩
  · intro leaves
    obtain ⟨other, plain, taken, found, same⟩ := leaves
    refine Option.bind_eq_some_iff.mpr ⟨taken, found, ?_⟩
    rw [same, if_neg plain, if_neg other]

/-- Without paths for names, only a transition of the state itself is taken. -/
theorem leaves_iff_of_plain (valid : validateFsm fsm = []) (plain : Plain fsm)
    (known : s ∈ fsm.states) : Leaves fsm s e ↔ ∃ own ∈ ownTransition fsm s e, own.to ≠ s := by
  have taken : takenTransition fsm s e = ownTransition fsm s e := by
    rw [takenTransition, ownTransition]
    congr 1
    funext t
    refine decide_eq_decide.mpr (and_congr_right fun _ => ?_)
    rw [or_comm, segs_of_not_mem (plain s known)]
    refine or_congr_left ?_
    constructor
    · intro above
      have only : segs PATH_SEP t.from = [s] := by
        rcases List.prefix_cons_iff.mp above with none' | ⟨rest, eq, short⟩
        · exact absurd none' (segs_ne_nil _)
        · rw [eq, List.prefix_nil.mp short]
      rw [← @joinSegs_segs PATH_SEP t.from, only, joinSegs, String.intercalate_singleton]
    · intro same
      rw [same, segs_of_not_mem (plain s known)]
  refine exists_congr fun own => and_congr_right fun first => ?_
  have declared := mem_states_of_validateFsm valid (List.mem_of_find?_eq_some first)
  rw [taken]
  constructor
  · intro leaves
    exact leaves.1
  · intro other
    exact ⟨other, plain _ declared, own, first, rfl⟩

/-! ## The compiled pack -/

/-- In a pack that compiles, every event is routed from the state that emits it if and only if
every such state has a transition on it that leaves. -/
theorem no_dead_end_iff (accepted : compilePackV2 pack = .ok compiled) :
    (∀ machine ∈ compiled.machines, ∀ fsm ∈ machine.fsm, ∀ row ∈ machine.entries,
        row.2.kind ≠ .terminal → ∀ e ∈ emittedBy row.2, Routed fsm row.1 e) ↔
      ∀ machine ∈ compiled.machines, ∀ fsm ∈ machine.fsm, ∀ row ∈ machine.entries,
        row.2.kind ≠ .terminal → ∀ e ∈ emittedBy row.2, Leaves fsm row.1 e := by
  refine forall₄_congr fun machine mem fsm present => ?_
  obtain ⟨source, compiled⟩ := exists_source accepted mem present
  have same : source.engine = fsm := Option.some.inj (compiled.fsm.symm.trans present)
  have valid : validateFsm fsm = [] := same ▸ compiled.valid
  have targeted : ∀ t ∈ fsm.transitions, t.to ≠ "" := same ▸ source.targeted
  exact forall₅_congr fun row _ _ e _ => routed_iff valid targeted

/-- A review that is approved or sent back, in a flow of its own. -/
def reviewPack : PackV2 :=
  { name := "review"
    fsm := some
      { initial := "work"
        states := [("work", .subFlow "checks" "checked"), ("done", .terminal .shipped)]
        transitions := [{ «from» := "*", on := some "checked", «to» := "done" }] }
    flows := some [("checks",
      { initial := "check"
        states := [("check", .decision [.guarded "green" "pass", .otherwise "fail"]),
          ("passed", .terminal .shipped), ("failed", .terminal .wedge)]
        transitions := [{ «from» := "check", on := some "pass", «to» := "passed" },
          { «from» := "check", on := some "fail", «to» := "failed" }] })]
    guards := [("green", "tests.green")] }

theorem no_dead_end_iff_review : ∃ compiled, compilePackV2 reviewPack = .ok compiled ∧
    ∀ machine ∈ compiled.machines, ∀ fsm ∈ machine.fsm, ∀ row ∈ machine.entries,
      row.2.kind ≠ .terminal → ∀ e ∈ emittedBy row.2, Routed fsm row.1 e := by
  have accepted : compilePackV2 reviewPack = .ok _ := rfl
  exact ⟨_, accepted, (no_dead_end_iff accepted).mpr (by decide +kernel)⟩

/-- Two gates that emit the same event, routed for the first only. -/
def relayPack : PackV2 :=
  { name := "relay"
    fsm := some
      { initial := "plan"
        states := [("plan", .gate "planned" none "go" ⟨.block, "plan first"⟩),
          ("build", .gate "built" none "go" ⟨.block, "build first"⟩),
          ("done", .terminal .shipped)]
        transitions := [{ «from» := "plan", on := some "go", «to» := "build" }] }
    guards := [("planned", "plan.ok"), ("built", "build.ok")] }

/-- It compiles, and its second gate throws once it passes. -/
theorem unrouted_from_other_state : ∃ compiled, compilePackV2 relayPack = .ok compiled ∧
    ∃ machine ∈ compiled.machines, ∃ fsm ∈ machine.fsm, ∃ row ∈ machine.entries,
      row.2.kind ≠ .terminal ∧ ∃ e ∈ emittedBy row.2, ¬ Routed fsm row.1 e := by
  refine ⟨_, rfl, ?_⟩
  decide +kernel

end Opensquid.Packs
