import Opensquid.Machine.Statechart

/-!
# The flat facade

A flat machine runs through the tree engine as an all-leaf tree whose
configuration is one state. `flatStep` is the plain machine: the first
transition from the current state (or the wildcard) on the event. The engine
agrees with it unless a state name contains the path separator: then a `from`
may be a proper ancestor path of the current state, and a target with several
segments resolves to nothing. `stepFlat_eq_flatStep_iff` is the exact condition.
-/

namespace Opensquid.Machine

open Opensquid.Lib.PathText

/-! ## The plain machine -/

/-- The transition is enabled in the plain machine. -/
def flatEnabled (current event : String) (evalWhen : EvalWhen) (t : Transition) : Bool :=
  t.on = some event ∧ (t.from = current ∨ t.from = ANY_STATE) ∧ guardHolds evalWhen t

/-- The plain flat machine: the first enabled transition, or stay. -/
def flatStep (fsm : Fsm) (current event : String) (evalWhen : EvalWhen) : FlatStepResult :=
  match firstTransition (flatEnabled current event evalWhen) fsm.transitions with
  | some (t, i) => { next := t.to, transitioned := t.to ≠ current, via := some i }
  | none => { next := current, transitioned := false, via := none }

/-- The first transition that the engine takes for enabled, if there is one,
starts at the current state or the wildcard and has a one-segment target. -/
def EngineFiresPlainly (fsm : Fsm) (current event : String) (evalWhen : EvalWhen) : Prop :=
  ∀ t i, firstTransition (enabled [current] event evalWhen) fsm.transitions = some (t, i) →
    (t.from = current ∨ t.from = ANY_STATE) ∧ PATH_SEP ∉ t.to.toList

/-! ## Entering a flat target -/

theorem mem_states_of_validateFsm {fsm : Fsm} (valid : validateFsm fsm = []) {t : Transition}
    (member : t ∈ fsm.transitions) : t.to ∈ fsm.states := by
  obtain ⟨i, clean⟩ := transitionErrors_eq_nil (List.append_eq_nil_iff.mp valid).2 member
  by_contra undeclared
  rw [if_neg undeclared] at clean
  cases (List.append_eq_nil_iff.mp clean).2

theorem lookup_map_leaf (names : List String) (name : String) :
    (names.map fun n => (n, StateNode.leaf)).lookup name =
      if name ∈ names then some .leaf else none := by
  induction names with
  | nil => rfl
  | cons head tail ih =>
      rw [List.map_cons, List.lookup_cons]
      by_cases same : name = head
      · simp only [same, beq_self_eq_true, List.mem_cons, true_or, ↓reduceIte]
      · simp only [beq_eq_false_iff_ne.mpr same, List.mem_cons, same, false_or, ih]

theorem lookup_fromFlat (fsm : Fsm) (name : String) :
    (fromFlat fsm).root.lookup name = if name ∈ fsm.states then some .leaf else none := by
  simp only [fromFlat, lookup_map_leaf, List.mem_eraseDups]

/-- A declared one-segment name is a leaf of the degenerate tree. -/
theorem resolveNode_fromFlat {fsm : Fsm} {name : String} (declared : name ∈ fsm.states)
    (plain : PATH_SEP ∉ name.toList) : resolveNode (fromFlat fsm) name = some .leaf := by
  rw [resolveNode, segs_of_not_mem plain, descend, lookup_fromFlat, if_pos declared]

/-- A leaf has nothing below it. -/
theorem descend_fromFlat (fsm : Fsm) (name next : String) (rest : List String) :
    descend (fromFlat fsm).root (name :: next :: rest) = none := by
  rw [descend, lookup_fromFlat]
  split
  · cases rest <;> rfl
  · rfl

/-- A path of several segments is nothing in the degenerate tree. -/
theorem resolveNode_fromFlat_of_mem {fsm : Fsm} {path : String} (split : PATH_SEP ∈ path.toList) :
    resolveNode (fromFlat fsm) path = none := by
  obtain ⟨name, next, rest, segments⟩ := segs_of_mem split
  rw [resolveNode, segments, descend_fromFlat]

/-- Nor is it inherited: no node of the degenerate tree has entries. -/
theorem resolvesInherited_fromFlat {fsm : Fsm} {path : String} (split : PATH_SEP ∈ path.toList) :
    resolvesInherited (fromFlat fsm) path = false := by
  obtain ⟨name, next, rest, segments⟩ := segs_of_mem split
  rw [resolvesInherited, segments]
  cases rest with
  | nil =>
      simp only [List.dropLast_cons_cons, List.dropLast_singleton, descend, lookup_fromFlat]
      split <;> rename_i parent
      · split at parent <;> cases parent
      · split at parent <;> cases parent
      · rfl
  | cons third rest =>
      simp only [List.dropLast_cons_cons, descend_fromFlat]
      rfl

/-- Entering a declared state: itself when it is one segment, nothing otherwise. -/
theorem enterTarget_fromFlat {fsm : Fsm} {target : String} (declared : target ∈ fsm.states)
    (lastActive : LastActive) :
    enterTarget (fromFlat fsm) target lastActive =
      some (if PATH_SEP ∈ target.toList then [] else [target]) := by
  by_cases split : PATH_SEP ∈ target.toList
  · rw [enterTarget, resolveNode_fromFlat_of_mem split, if_pos split, enterLeaves,
      enterLeavesWithin, resolveNode_fromFlat_of_mem split, resolvesInherited_fromFlat split]
    rfl
  · rw [enterTarget, resolveNode_fromFlat declared split, if_neg split, enterLeaves,
      enterLeavesWithin, resolveNode_fromFlat declared split]

/-! ## One step -/

theorem enabled_of_flatEnabled {current event : String} {evalWhen : EvalWhen} {t : Transition}
    (plain : flatEnabled current event evalWhen t = true) :
    enabled [current] event evalWhen t = true := by
  obtain ⟨on, source, guard⟩ := of_decide_eq_true plain
  refine decide_eq_true ⟨on, ?_, guard⟩
  rcases source with same | wild
  · exact .inr (isActive_iff.mpr ⟨current, List.mem_singleton_self _, same ▸ List.prefix_refl _⟩)
  · exact .inl wild

/-- An enabled transition exits the single active state. -/
theorem mem_exit_of_enabled {sc : Statechart} {current event : String} {evalWhen : EvalWhen}
    {t : Transition} (fires : enabled [current] event evalWhen t = true) :
    current ∈ descendantsOf [current] (exitScope sc t) := by
  obtain ⟨-, source, -⟩ := of_decide_eq_true fires
  rw [exitScope]
  split
  · exact List.mem_singleton_self _
  · rename_i named
    obtain ⟨leaf, member, above⟩ := isActive_iff.mp (source.resolve_left named)
    rw [List.mem_singleton.mp member] at above
    exact mem_descendantsOf_lcca (List.mem_singleton_self _) above

/-- What the engine returns when it fires a transition. -/
theorem stepFlat_of_fires {fsm : Fsm} (valid : validateFsm fsm = []) {current event : String}
    {evalWhen : EvalWhen} {t : Transition} {i : Nat}
    (fires : firstTransition (enabled [current] event evalWhen) fsm.transitions = some (t, i)) :
    stepFlat fsm current event evalWhen =
      some (if PATH_SEP ∈ t.to.toList then { next := "", transitioned := true, via := some i }
        else { next := t.to, transitioned := t.to ≠ current, via := some i }) := by
  obtain ⟨passes, at_i⟩ := firstTransition_some fires
  have declared := mem_states_of_validateFsm valid (List.mem_of_getElem? at_i)
  have exits : current ∈ descendantsOf [current] (exitScope (fromFlat fsm) t) :=
    mem_exit_of_enabled passes
  have stays : [current].filter
      (fun leaf => leaf ∉ descendantsOf [current] (exitScope (fromFlat fsm) t)) = [] := by
    refine List.filter_eq_nil_iff.mpr fun leaf member stays => ?_
    rw [List.mem_singleton.mp member] at stays
    exact of_decide_eq_true stays exits
  have transitions : (fromFlat fsm).transitions = fsm.transitions := rfl
  rw [stepFlat, step, transitions, fires]
  simp only [enterTarget_fromFlat declared, exitAndEnter, stays, Option.map_some]
  split
  · rfl
  · simp only [Configuration.addAll, Configuration.add, List.foldl_cons, List.foldl_nil,
      List.not_mem_nil, ↓reduceIte, List.nil_append, soleState, List.headD_cons,
      List.length_singleton, ne_eq, not_true_eq_false, false_or, List.any_cons, List.any_nil,
      List.mem_singleton, Bool.or_false, decide_eq_true_eq]

theorem stepFlat_of_stays {fsm : Fsm} {current event : String} {evalWhen : EvalWhen}
    (stays : firstTransition (enabled [current] event evalWhen) fsm.transitions = none) :
    stepFlat fsm current event evalWhen =
      some { next := current, transitioned := false, via := none } := by
  have transitions : (fromFlat fsm).transitions = fsm.transitions := rfl
  rw [stepFlat, step, transitions, stays]
  rfl

/-! ## Refinement -/

/-- The facade is the plain machine, and stays in the declared states, exactly
when the transition the engine fires is a plain one. -/
theorem stepFlat_eq_flatStep_iff {fsm : Fsm} (valid : validateFsm fsm = []) {current : String}
    (declared : current ∈ fsm.states) (event : String) (evalWhen : EvalWhen) :
    (stepFlat fsm current event evalWhen = some (flatStep fsm current event evalWhen) ∧
        ∀ r ∈ stepFlat fsm current event evalWhen, r.next ∈ fsm.states) ↔
      EngineFiresPlainly fsm current event evalWhen := by
  have weaker (t : Transition) (plain : flatEnabled current event evalWhen t = true) :
      enabled [current] event evalWhen t = true := enabled_of_flatEnabled plain
  cases fires : firstTransition (enabled [current] event evalWhen) fsm.transitions with
  | none =>
      have plain := firstTransition_none_of_stronger weaker fires
      rw [stepFlat_of_stays fires, flatStep, plain]
      refine iff_of_true ⟨rfl, ?_⟩ fun t i first => ?_
      · rintro _ ⟨⟩
        exact declared
      · cases fires.symm.trans first
  | some entry =>
      obtain ⟨t, i⟩ := entry
      obtain ⟨passes, at_i⟩ := firstTransition_some fires
      rw [stepFlat_of_fires valid fires]
      constructor
      · rintro ⟨agrees, -⟩ t' i' first
        cases fires.symm.trans first
        cases plain : firstTransition (flatEnabled current event evalWhen) fsm.transitions with
        | none =>
            rw [flatStep, plain] at agrees
            split at agrees <;>
              simp only [Option.some.injEq, FlatStepResult.mk.injEq, reduceCtorEq, and_false]
                at agrees
        | some entry =>
            obtain ⟨t', i'⟩ := entry
            obtain ⟨passes', at_i'⟩ := firstTransition_some plain
            rw [flatStep, plain] at agrees
            obtain ⟨-, source, -⟩ := of_decide_eq_true passes'
            split at agrees
            · rename_i split
              -- the same index, so the same transition, whose target is not empty
              injection agrees with agrees
              injection agrees with next _ via
              cases via
              cases at_i.symm.trans at_i'
              rw [← next] at split
              cases split
            · rename_i unsplit
              injection agrees with agrees
              injection agrees with next _ via
              cases via
              cases at_i.symm.trans at_i'
              exact ⟨source, unsplit⟩
      · intro plainly
        obtain ⟨source, unsplit⟩ := plainly t i fires
        obtain ⟨on, -, guard⟩ := of_decide_eq_true passes
        have plain := firstTransition_of_stronger weaker fires
          (decide_eq_true ⟨on, source, guard⟩)
        rw [if_neg unsplit, flatStep, plain]
        refine ⟨rfl, ?_⟩
        rintro _ ⟨⟩
        exact mem_states_of_validateFsm valid (List.mem_of_getElem? at_i)

/-- A machine with a wildcard and a guarded transition. -/
def doorFsm : Fsm :=
  { initial := "closed"
    states := ["closed", "ajar", "locked"]
    transitions :=
      [{ «from» := "closed", on := some "push", «to» := "ajar", when := some "unlocked" },
        { «from» := "*", on := some "lock", «to» := "locked" }] }

theorem stepFlat_eq_flatStep_door :
    stepFlat doorFsm "closed" "push" (some fun _ => true) =
      some { next := "ajar", transitioned := true, via := some 0 } := by
  have valid : validateFsm doorFsm = [] := by decide +kernel
  have plainly : EngineFiresPlainly doorFsm "closed" "push" (some fun _ => true) := by
    have fires : firstTransition (enabled ["closed"] "push" (some fun _ => true))
        doorFsm.transitions = some
          ({ «from» := "closed", on := some "push", «to» := "ajar", when := some "unlocked" }, 0) := by
      decide +kernel
    intro t i first
    cases fires.symm.trans first
    exact ⟨.inl rfl, by decide +kernel⟩
  have agrees := ((stepFlat_eq_flatStep_iff valid (by decide +kernel) "push" _).mpr plainly).1
  rw [agrees]
  decide +kernel

/-- A machine whose states are named like paths: the transition from `a` is taken
for enabled in `a/b`, and leads nowhere. -/
def nestedNameFsm : Fsm :=
  { initial := "a"
    states := ["a", "a/b"]
    transitions := [{ «from» := "a", on := some "go", «to» := "a/b" }] }

theorem nestedName_stepFlat_ne :
    validateFsm nestedNameFsm = [] ∧ "a/b" ∈ nestedNameFsm.states ∧
      stepFlat nestedNameFsm "a/b" "go" none =
        some { next := "", transitioned := true, via := some 0 } ∧
      flatStep nestedNameFsm "a/b" "go" none =
        { next := "a/b", transitioned := false, via := none } := by
  decide +kernel

end Opensquid.Machine
