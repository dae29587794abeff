import Mathlib.Data.List.Sort
import Mathlib.Logic.Function.Basic
import Opensquid.Lib.PathText

/-!
# The state-machine engine

The flat wire format (`Fsm`, `validateFsm`) and the executable statechart
(`Statechart`, `validateStatechart`, `step`, `settle`), as the engine has them:
nodes are addressed by path texts, a configuration is the ordered set of its
active leaf paths, and the history memory maps a composite's path to the leaf
that was active in it last.

A `Record` of nodes is the list of its entries in key order. A name that such an
object inherits from `Object.prototype` passes the engine's `in` tests although
it is no entry; it resolves to an object that is no node, on which entering
throws. A function of the engine that may throw returns an `Option`; `none` also
stands for a recursion without end (an empty `initial` names its own compound).
-/

namespace Opensquid.Machine

open Opensquid.Lib.PathText

/-! ## Wire format -/

/-- A wildcard `from`. -/
def ANY_STATE : String := "*"

structure Transition where
  «from» : String
  on : Option String := none
  «to» : String
  when : Option String := none
  deriving DecidableEq, Repr

structure Fsm where
  initial : String
  states : List String
  transitions : List Transition
  deriving Repr

/-- The error list of `transitions.forEach`, with each transition's index. -/
def transitionErrors (check : Nat → Transition → List String) (transitions : List Transition) :
    List String :=
  (transitions.zipIdx.map fun (t, i) => check i t).flatten

theorem transitionErrors_eq_nil {check : Nat → Transition → List String}
    {transitions : List Transition} (clean : transitionErrors check transitions = [])
    {t : Transition} (member : t ∈ transitions) : ∃ i, check i t = [] := by
  obtain ⟨i, at_i⟩ := List.getElem?_of_mem member
  refine ⟨i, List.flatten_eq_nil_iff.mp clean _ (List.mem_map.mpr ⟨(t, i), ?_, rfl⟩)⟩
  exact List.mem_zipIdx_iff_getElem?.mpr at_i

/-- Load-time validation of the flat machine; no errors means valid. -/
def validateFsm (fsm : Fsm) : List String :=
  (if fsm.initial ∈ fsm.states then []
    else ["initial state \"" ++ fsm.initial ++ "\" is not in states [" ++
      ", ".intercalate fsm.states ++ "]"]) ++
  transitionErrors
    (fun i t =>
      (if t.from = ANY_STATE ∨ t.from ∈ fsm.states then []
        else ["transition[" ++ toString i ++ "] from \"" ++ t.from ++
          "\" is not a declared state"]) ++
      (if t.to ∈ fsm.states then []
        else ["transition[" ++ toString i ++ "] to \"" ++ t.to ++ "\" is not a declared state"]))
    fsm.transitions

/-! ## The state tree -/

/-- The separator between path segments. -/
def PATH_SEP : Char := '/'

inductive HistoryDepth
  | shallow
  | deep
  deriving DecidableEq, Repr

inductive StateNode
  | leaf
  | «final»
  | history (depth : HistoryDepth) (default : Option String)
  | compound (initial : String) (states : List (String × StateNode))
  | parallel (regions : List (String × StateNode))

/-- The nodes directly inside a node. -/
def StateNode.children : StateNode → List (String × StateNode)
  | .compound _ states => states
  | .parallel regions => regions
  | _ => []

/-- `leaf` and `final` are the nodes that may be active leaves. -/
def StateNode.isAtomic : StateNode → Bool
  | .leaf => true
  | .final => true
  | _ => false

def StateNode.isHistory : StateNode → Bool
  | .history .. => true
  | _ => false

def StateNode.isFinal : StateNode → Bool
  | .final => true
  | _ => false

def StateNode.isParallel : StateNode → Bool
  | .parallel _ => true
  | _ => false

structure Statechart where
  initial : String
  root : List (String × StateNode)
  transitions : List Transition

/-- The active leaf paths, in insertion order. -/
abbrev Configuration := List String

/-- `Set.add`. -/
def Configuration.add (config : Configuration) (leaf : String) : Configuration :=
  if leaf ∈ config then config else config ++ [leaf]

def Configuration.addAll (config : Configuration) (leaves : List String) : Configuration :=
  leaves.foldl Configuration.add config

/-- The history memory: composite path to its remembered leaf path. -/
abbrev LastActive := String → Option String

/-- What every object inherits. -/
def objectPrototypeNames : List String :=
  ["constructor", "__defineGetter__", "__defineSetter__", "hasOwnProperty", "__lookupGetter__",
    "__lookupSetter__", "isPrototypeOf", "propertyIsEnumerable", "toString", "valueOf",
    "__proto__", "toLocaleString"]

/-- `name in object`. -/
def inObject (entries : List (String × StateNode)) (name : String) : Bool :=
  name ∈ entries.map Prod.fst ∨ name ∈ objectPrototypeNames

/-- `joinPath`: the non-empty parts around separators. -/
def joinPath (parts : List String) : String :=
  joinSegs PATH_SEP (parts.filter fun part => part ≠ "")

theorem joinPath_empty (path : String) : joinPath [path, ""] = path := by
  by_cases root : path = ""
  · subst root
    rfl
  · have kept : [path, ""].filter (fun part => part ≠ "") = [path] := by simp [root]
    rw [joinPath, kept, joinSegs, String.intercalate_singleton]

theorem joinPath_pair {path name : String} (proper : path ≠ "") (named : name ≠ "") :
    joinPath [path, name] = path ++ String.singleton PATH_SEP ++ name := by
  have kept : [path, name].filter (fun part => part ≠ "") = [path, name] := by simp [proper, named]
  rw [joinPath, kept, joinSegs, String.intercalate_cons_of_ne_nil (List.cons_ne_nil _ _),
    String.intercalate_singleton]

/-- Walk down a path's segments. -/
def descend : List (String × StateNode) → List String → Option StateNode
  | _, [] => none
  | level, [name] => level.lookup name
  | level, name :: next :: rest =>
      (level.lookup name).bind fun node => descend node.children (next :: rest)

/-- Resolve a node by its path. -/
def resolveNode (sc : Statechart) (path : String) : Option StateNode :=
  descend sc.root (segs PATH_SEP path)

/-- The path ends in a name that its parent's entries object only inherits. -/
def resolvesInherited (sc : Statechart) (path : String) : Bool :=
  let names := segs PATH_SEP path
  let level := match names.dropLast with
    | [] => some sc.root
    | parents =>
        match descend sc.root parents with
        | some (.compound _ states) => some states
        | some (.parallel regions) => some regions
        | _ => none
  level.any fun entries => (names.getLastD "") ∈ objectPrototypeNames ∧
    (names.getLastD "") ∉ entries.map Prod.fst

mutual

/-- The levels of nodes below a node. -/
def StateNode.depth : StateNode → Nat
  | .compound _ states => levelDepth states
  | .parallel regions => levelDepth regions
  | _ => 0

def levelDepth : List (String × StateNode) → Nat
  | [] => 0
  | (_, node) :: rest => max (node.depth + 1) (levelDepth rest)

end

/-- `enterLeaves` within a number of nested calls. -/
def enterLeavesWithin (sc : Statechart) : Nat → String → Option (List String)
  | 0, _ => none
  | fuel + 1, path =>
      match resolveNode sc path with
      | none => if resolvesInherited sc path then none else some []
      | some .leaf | some .final => some [path]
      | some (.history ..) => some []
      | some (.compound initial _) => enterLeavesWithin sc fuel (joinPath [path, initial])
      | some (.parallel regions) =>
          (regions.mapM fun region => enterLeavesWithin sc fuel (joinPath [path, region.1])).map
            List.flatten

/-- The leaf paths activated by entering the node at `path`. A call nested deeper
than the tree is one on the same path again. -/
def enterLeaves (sc : Statechart) (path : String) : Option (List String) :=
  enterLeavesWithin sc (levelDepth sc.root + 1) path

def initialConfig (sc : Statechart) : Option Configuration :=
  (enterLeaves sc sc.initial).map (Configuration.addAll [])

/-- The single active leaf of a flat configuration. -/
def soleState (config : Configuration) : String := config.headD ""

/-- `path` is an active leaf or an ancestor of one. -/
def isActive (config : Configuration) (path : String) : Bool :=
  config.any fun leaf => leaf = path ∨ startsWith leaf (path ++ String.singleton PATH_SEP)

/-- The common first elements. -/
def commonPrefix : List String → List String → List String
  | a :: as, b :: bs => if a = b then a :: commonPrefix as bs else []
  | _, _ => []

theorem commonPrefix_prefix (a b : List String) : commonPrefix a b <+: a := by
  induction a generalizing b with
  | nil => exact List.nil_prefix
  | cons head tail ih =>
      cases b with
      | nil => exact List.nil_prefix
      | cons head' tail' =>
          rw [commonPrefix]
          split
          · exact (List.prefix_cons_inj head).mpr (ih tail')
          · exact List.nil_prefix

/-- The least common ancestor path; empty for the root scope. -/
def lcca (a b : String) : String :=
  joinSegs PATH_SEP (commonPrefix (segs PATH_SEP a) (segs PATH_SEP b))

theorem isActive_iff {config : Configuration} {path : String} :
    isActive config path = true ↔
      ∃ leaf ∈ config, segs PATH_SEP path <+: segs PATH_SEP leaf := by
  simp only [isActive, List.any_eq_true, decide_eq_true_eq, eq_or_below_iff]

/-- The active leaves at or below `scope`. -/
def descendantsOf (config : Configuration) (scope : String) : List String :=
  if scope = "" then config
  else config.filter fun leaf =>
    leaf = scope ∨ startsWith leaf (scope ++ String.singleton PATH_SEP)

/-- A leaf is at or below the least common ancestor of one of its ancestors and
any other path. -/
theorem mem_descendantsOf_lcca {config : Configuration} {leaf ancestor other : String}
    (member : leaf ∈ config) (above : segs PATH_SEP ancestor <+: segs PATH_SEP leaf) :
    leaf ∈ descendantsOf config (lcca ancestor other) := by
  rw [descendantsOf]
  split
  · exact member
  · rename_i proper
    refine List.mem_filter.mpr ⟨member, decide_eq_true (eq_or_below_iff.mpr ?_)⟩
    have common := commonPrefix_prefix (segs PATH_SEP ancestor) (segs PATH_SEP other)
    have nonempty : commonPrefix (segs PATH_SEP ancestor) (segs PATH_SEP other) ≠ [] := by
      intro none
      exact proper (by rw [lcca, none]; rfl)
    rw [lcca, segs_joinSegs (fun name inside => not_mem_of_mem_segs (common.subset inside)) nonempty]
    exact common.trans above

/-- One node of the tree with its path and the node it is directly inside of. -/
structure TreeEntry where
  path : String
  parent : Option StateNode
  node : StateNode

mutual

/-- The nodes below a node, each before those inside it: the order in which the
engine's walks over the tree meet them. -/
def StateNode.entriesBelow (path : String) : StateNode → List TreeEntry
  | .compound initial states => levelEntries path (some (.compound initial states)) states
  | .parallel regions => levelEntries path (some (.parallel regions)) regions
  | _ => []

def levelEntries (base : String) (parent : Option StateNode) :
    List (String × StateNode) → List TreeEntry
  | [] => []
  | (name, node) :: rest =>
      let path := joinPath [base, name]
      ⟨path, parent, node⟩ :: (node.entriesBelow path ++ levelEntries base parent rest)

end

def Statechart.entries (sc : Statechart) : List TreeEntry := levelEntries "" none sc.root

/-- Every node path. -/
def allPaths (sc : Statechart) : List String := sc.entries.map TreeEntry.path

/-- The compounds' paths. -/
def compoundPaths (sc : Statechart) : List String :=
  (sc.entries.filter fun entry => match entry.node with
    | .compound .. => true
    | _ => false).map TreeEntry.path

/-- The parallels' paths, deepest first. -/
def parallelPaths (sc : Statechart) : List String :=
  ((sc.entries.filter fun entry => entry.node.isParallel).map TreeEntry.path).insertionSort
    fun a b => (segs PATH_SEP b).length ≤ (segs PATH_SEP a).length

/-- The path of the parent node; empty at the root. -/
def parentOf (path : String) : String := joinSegs PATH_SEP (segs PATH_SEP path).dropLast

/-! ## Validation -/

/-- `subtreeHasFinal` within a number of nested calls. -/
def subtreeHasFinalWithin (sc : Statechart) : Nat → String → Option Bool
  | 0, _ => none
  | fuel + 1, path =>
      match resolveNode sc path with
      | some .final => some true
      | some (.compound _ states) =>
          states.anyM fun child => subtreeHasFinalWithin sc fuel (joinPath [path, child.1])
      | some (.parallel regions) =>
          regions.anyM fun child => subtreeHasFinalWithin sc fuel (joinPath [path, child.1])
      | _ => some false

/-- The subtree at `path` contains a `final` node. -/
def subtreeHasFinal (sc : Statechart) (path : String) : Option Bool :=
  subtreeHasFinalWithin sc (levelDepth sc.root + 1) path

def initialErrors (entry : TreeEntry) : List String :=
  match entry.node with
  | .compound initial states =>
      if inObject states initial then []
      else ["compound \"" ++ entry.path ++ "\" initial \"" ++ initial ++
        "\" is not one of its states"]
  | _ => []

def historyErrors (entry : TreeEntry) : List String :=
  match entry.node, entry.parent with
  | .history _ (some default), some (.compound _ states) =>
      if inObject states default then []
      else ["history \"" ++ entry.path ++ "\" default \"" ++ default ++
        "\" is not a state of its compound"]
  | .history _ none, some (.compound ..) => []
  | .history .., _ => ["history \"" ++ entry.path ++ "\" is not a direct child of a compound"]
  | _, _ => []

/-- A parallel that contains a final node needs an eventless join. -/
def joinErrors (sc : Statechart) (path : String) : Option (List String) :=
  (subtreeHasFinal sc path).map fun hasFinal =>
    if hasFinal && !sc.transitions.any (fun t => t.from = path ∧ t.on = none) then
      ["finalizable parallel \"" ++ path ++
        "\" has no eventless join transition (would deadlock on all-regions-final)"]
    else []

/-- Recursive validation of the tree; no errors means valid. -/
def validateStatechart (sc : Statechart) : Option (List String) :=
  ((parallelPaths sc).mapM (joinErrors sc)).map fun joins =>
    (if inObject sc.root sc.initial then []
      else ["initial state \"" ++ sc.initial ++ "\" is not a top-level state"]) ++
    (sc.entries.map initialErrors).flatten ++
    (sc.entries.map historyErrors).flatten ++
    transitionErrors
      (fun i t =>
        (if t.from = ANY_STATE ∨ t.from ∈ allPaths sc then []
          else ["transition[" ++ toString i ++ "] from \"" ++ t.from ++
            "\" is not a declared state path"]) ++
        (if t.to ∈ allPaths sc then []
          else ["transition[" ++ toString i ++ "] to \"" ++ t.to ++
            "\" is not a declared state path"]) ++
        (if t.on = none ∧ t.from ≠ ANY_STATE ∧
            ¬ (resolveNode sc t.from).any StateNode.isParallel then
          ["transition[" ++ toString i ++ "] eventless from \"" ++ t.from ++
            "\" is not a parallel (only a parallel join may be eventless)"]
        else []))
      sc.transitions ++
    joins.flatten

/-! ## Entry and exit -/

/-- History-aware entry: a history pseudostate re-enters its compound where the
memory says, anything else is entered down to its leaves. -/
def enterTarget (sc : Statechart) («to» : String) (lastActive : LastActive) :
    Option (List String) :=
  match resolveNode sc «to» with
  | some (.history depth default) =>
      let composite := parentOf «to»
      match lastActive composite with
      | none =>
          -- a composite that is called like an inherited property remembers no text
          if composite ∈ objectPrototypeNames then none
          else
            match default with
            | some name => enterLeaves sc (joinPath [composite, name])
            | none => enterLeaves sc composite
      | some remembered =>
          match depth with
          | .deep => some [remembered]
          | .shallow =>
              enterLeaves sc (joinSegs PATH_SEP
                ((segs PATH_SEP remembered).take ((segs PATH_SEP composite).length + 1)))
  | _ => enterLeaves sc «to»

/-- Remember, for every compound, the first of its active leaves that is exited. -/
def recordExits (sc : Statechart) (config : Configuration) (exit : List String)
    (lastActive : LastActive) : LastActive :=
  (compoundPaths sc).foldl
    (fun next c =>
      match config.find? fun leaf =>
        startsWith leaf (c ++ String.singleton PATH_SEP) ∧ leaf ∈ exit with
      -- a text that is assigned to this name is dropped
      | some active => if c = "__proto__" then next else Function.update next c (some active)
      | none => next)
    lastActive

/-- The active leaves that stay, with the entered ones. -/
def exitAndEnter (config : Configuration) (exit entered : List String) : Configuration :=
  Configuration.addAll (config.filter fun leaf => leaf ∉ exit) entered

theorem Configuration.mem_addAll {config : Configuration} {leaves : List String} {leaf : String} :
    leaf ∈ config.addAll leaves ↔ leaf ∈ config ∨ leaf ∈ leaves := by
  induction leaves generalizing config with
  | nil => rw [or_iff_left List.not_mem_nil]; exact Iff.rfl
  | cons first rest ih =>
      have added : leaf ∈ config.add first ↔ leaf ∈ config ∨ leaf = first := by
        rw [Configuration.add]
        split
        · rename_i known
          exact ⟨.inl, fun either => either.elim id fun same => same ▸ known⟩
        · rw [List.mem_append, List.mem_singleton]
      rw [addAll, List.foldl_cons]
      exact ih.trans (by rw [added, List.mem_cons, or_assoc])

theorem mem_exitAndEnter {config : Configuration} {exit entered : List String} {leaf : String} :
    leaf ∈ exitAndEnter config exit entered ↔ (leaf ∈ config ∧ leaf ∉ exit) ∨ leaf ∈ entered := by
  rw [exitAndEnter, Configuration.mem_addAll, List.mem_filter, decide_eq_true_eq]

/-! ## Steps -/

/-- The optional guard evaluator. -/
abbrev EvalWhen := Option (String → Bool)

/-- A guard that is absent, not evaluated, or true. -/
def guardHolds (evalWhen : EvalWhen) (t : Transition) : Bool :=
  match t.when, evalWhen with
  | some expr, some eval => eval expr
  | _, _ => true

structure StepResult where
  next : Configuration
  transitioned : Bool
  via : Option Nat
  lastActive : LastActive

/-- The transition is enabled by the event. -/
def enabled (config : Configuration) (event : String) (evalWhen : EvalWhen) (t : Transition) :
    Bool :=
  t.on = some event ∧ (t.from = ANY_STATE ∨ isActive config t.from) ∧ guardHolds evalWhen t

/-- The first transition in document order that passes, with its index. -/
def firstTransition (pass : Transition → Bool) (transitions : List Transition) :
    Option (Transition × Nat) :=
  transitions.zipIdx.find? fun entry => pass entry.1

theorem firstTransition_some {pass : Transition → Bool} {transitions : List Transition}
    {t : Transition} {i : Nat} (first : firstTransition pass transitions = some (t, i)) :
    pass t = true ∧ transitions[i]? = some t := by
  unfold firstTransition at first
  have passes := List.find?_some first
  exact ⟨passes, List.mem_zipIdx_iff_getElem?.mp (List.mem_of_find?_eq_some first)⟩

/-- The first to pass is the first to pass a stronger test, if it does. -/
theorem firstTransition_of_stronger {pass stronger : Transition → Bool}
    {transitions : List Transition} (implies : ∀ t, stronger t = true → pass t = true)
    {t : Transition} {i : Nat} (first : firstTransition pass transitions = some (t, i))
    (passes : stronger t = true) : firstTransition stronger transitions = some (t, i) := by
  obtain ⟨-, before, after, split, earlier⟩ := List.find?_eq_some_iff_append.mp first
  refine List.find?_eq_some_iff_append.mpr ⟨passes, before, after, split, fun e member => ?_⟩
  have fails := earlier e member
  simp only [Bool.not_eq_true'] at fails ⊢
  exact Bool.eq_false_iff.mpr fun holds => Bool.eq_false_iff.mp fails (implies _ holds)

theorem firstTransition_none_of_stronger {pass stronger : Transition → Bool}
    {transitions : List Transition} (implies : ∀ t, stronger t = true → pass t = true)
    (none : firstTransition pass transitions = none) :
    firstTransition stronger transitions = .none :=
  List.find?_eq_none.mpr fun e member holds =>
    List.find?_eq_none.mp none e member (implies _ holds)

/-- The path whose exit scope a target has: a history's composite, else itself. -/
def effectiveTo (sc : Statechart) («to» : String) : String :=
  if (resolveNode sc «to»).any StateNode.isHistory then parentOf «to» else «to»

/-- The scope a transition exits. -/
def exitScope (sc : Statechart) (t : Transition) : String :=
  if t.from = ANY_STATE then "" else lcca t.from (effectiveTo sc t.to)

/-- The total transition function: fire the first enabled transition, or stay. -/
def step (sc : Statechart) (config : Configuration) (event : String) (evalWhen : EvalWhen)
    (lastActive : LastActive) : Option StepResult :=
  match firstTransition (enabled config event evalWhen) sc.transitions with
  | none => some { next := config, transitioned := false, via := none, lastActive }
  | some (t, i) =>
      let exit := descendantsOf config (exitScope sc t)
      (enterTarget sc t.to lastActive).map fun entered =>
        let next := exitAndEnter config exit entered
        { next
          transitioned := next.length ≠ config.length ∨ next.any fun p => p ∉ config
          via := some i
          lastActive := recordExits sc config exit lastActive }

/-- Lift a flat machine into the degenerate tree: assigning a key again keeps its
first position. -/
def fromFlat (fsm : Fsm) : Statechart :=
  { initial := fsm.initial
    root := fsm.states.eraseDups.map fun name => (name, .leaf)
    transitions := fsm.transitions }

structure FlatStepResult where
  next : String
  transitioned : Bool
  via : Option Nat
  deriving DecidableEq, Repr

/-- Step a flat machine by a single state. -/
def stepFlat (fsm : Fsm) (current event : String) (evalWhen : EvalWhen) : Option FlatStepResult :=
  (step (fromFlat fsm) [current] event evalWhen fun _ => none).map fun r =>
    { next := soleState r.next, transitioned := r.transitioned, via := r.via }

/-! ## Joins -/

/-- Every region's active leaf is a final node that is the region or directly
inside it. -/
def allRegionsFinal (sc : Statechart) (parallelPath : String) (config : Configuration) : Bool :=
  match resolveNode sc parallelPath with
  | some (.parallel regions) =>
      regions.all fun (r, _) =>
        let rp := joinPath [parallelPath, r]
        config.any fun leaf => (resolveNode sc leaf).any StateNode.isFinal ∧
          (leaf = rp ∨ startsWith leaf (rp ++ String.singleton PATH_SEP) ∧
            (segs PATH_SEP leaf).length = (segs PATH_SEP rp).length + 1)
  | _ => false

/-- The first eventless transition from a path whose guard holds. -/
def joinEdge (sc : Statechart) (evalWhen : EvalWhen) (p : String) : Option Transition :=
  sc.transitions.find? fun t => t.from = p ∧ t.on = none ∧ guardHolds evalWhen t

/-- The innermost active parallel that is done and has a join, with the join. -/
def nextJoin (sc : Statechart) (evalWhen : EvalWhen) (config : Configuration) :
    Option (String × Transition) :=
  (parallelPaths sc).findSome? fun p =>
    if isActive config p ∧ allRegionsFinal sc p config then
      (joinEdge sc evalWhen p).map fun t => (p, t)
    else none

/-- Exit the parallel and enter the join's target. -/
def fireJoin (sc : Statechart) (config : Configuration) (lastActive : LastActive) (p : String)
    (t : Transition) : Option (Configuration × LastActive) :=
  let exit := descendantsOf config p
  let recorded := recordExits sc config exit lastActive
  (enterTarget sc t.to recorded).map fun entered => (exitAndEnter config exit entered, recorded)

/-- Fire joins until none is left, up to a number of them. -/
def settleWithin (sc : Statechart) (evalWhen : EvalWhen) :
    Nat → Configuration → LastActive → Option (Configuration × LastActive)
  | 0, config, lastActive => some (config, lastActive)
  | fuel + 1, config, lastActive =>
      match nextJoin sc evalWhen config with
      | none => some (config, lastActive)
      | some (p, t) =>
          (fireJoin sc config lastActive p t).bind fun (next, recorded) =>
            settleWithin sc evalWhen fuel next recorded

/-- The macrostep: eventless joins to a fixpoint. -/
def settle (sc : Statechart) (config : Configuration) (evalWhen : EvalWhen)
    (lastActive : LastActive) : Option (Configuration × LastActive) :=
  settleWithin sc evalWhen 10000 config lastActive

end Opensquid.Machine
