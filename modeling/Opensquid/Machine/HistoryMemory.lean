import Opensquid.Lib.Lists
import Opensquid.Lib.Steps
import Opensquid.Machine.Statechart

/-!
# What a history node restores

A run threads the history memory through its steps and joins. Beside it stands what was active
under each path when it was last left.

`restored_of_single`: a compound that is entered again at its history node from outside is as it
was left, if a deep history had one leaf to remember and a shallow one a single child, which is
entered at some leaf, and if a step finds the compound inactive. The memory holds one leaf for a
compound, and `step` reads it before it records the exits of the same step.
-/

namespace Opensquid.Machine

open Opensquid.Lib Opensquid.Lib.PathText

/-! ## Runs -/

/-- The active leaves under a path. -/
def leavesUnder (config : Configuration) (c : String) : List String :=
  config.filter fun leaf => startsWith leaf (c ++ String.singleton PATH_SEP)

/-- A configuration with its memory, and what was active under a path when it was last left. -/
structure ChartRun where
  config : Configuration
  lastActive : LastActive := fun _ => none
  left : String → Option (List String) := fun _ => none

/-- An event, or one join of a macrostep. -/
inductive Move
  | step (event : String) (evalWhen : EvalWhen)
  | join (evalWhen : EvalWhen)

namespace ChartRun

/-- What was active and no longer is has been left. -/
def moveTo (s : ChartRun) (next : Configuration) (lastActive : LastActive) : ChartRun where
  config := next
  lastActive := lastActive
  left c :=
    if leavesUnder s.config c ≠ [] ∧ leavesUnder next c = [] then some (leavesUnder s.config c)
    else s.left c

variable (sc : Statechart)

def move (s : ChartRun) : Move → Option ChartRun
  | .step event evalWhen =>
      (step sc s.config event evalWhen s.lastActive).map fun r => s.moveTo r.next r.lastActive
  | .join evalWhen =>
      (nextJoin sc evalWhen s.config).bind fun (p, t) =>
        (fireJoin sc s.config s.lastActive p t).map fun (next, recorded) => s.moveTo next recorded

/-- The transition that a move takes, with the leaves that it exits. -/
def taken (s : ChartRun) : Move → Option (Transition × List String)
  | .step event evalWhen =>
      (firstTransition (enabled s.config event evalWhen) sc.transitions).map fun (t, _) =>
        (t, descendantsOf s.config (exitScope sc t))
  | .join evalWhen =>
      (nextJoin sc evalWhen s.config).map fun (p, t) => (t, descendantsOf s.config p)

/-- The memory in which a move looks a history node up: a join has recorded its exits before. -/
def memoryFor (s : ChartRun) (exit : List String) : Move → LastActive
  | .step .. => s.lastActive
  | .join _ => recordExits sc s.config exit s.lastActive

/-- What was active under the path when it was last left, where that is before the move or by the
move itself. -/
def lastLeft (s : ChartRun) (exit : List String) (c : String) : Option (List String) :=
  if leavesUnder s.config c = [] then s.left c
  else if ∀ leaf ∈ leavesUnder s.config c, leaf ∈ exit then some (leavesUnder s.config c)
  else none

end ChartRun

/-! ## Coming back -/

/-- The source of the transition is neither the compound nor inside it. -/
def Outside (t : Transition) (c : String) : Prop :=
  t.from = ANY_STATE ∨ ¬ (t.from = c ∨ startsWith t.from (c ++ String.singleton PATH_SEP) = true)

instance (t : Transition) (c : String) : Decidable (Outside t c) :=
  inferInstanceAs (Decidable (_ ∨ _))

/-- The move takes a transition from outside a compound to its history node, and the compound has
been left before with these leaves active. -/
structure ComesBack (sc : Statechart) (s : ChartRun) (m : Move) (t : Transition)
    (depth : HistoryDepth) (exit leaves : List String) : Prop where
  taken : s.taken sc m = some (t, exit)
  history : ∃ default, resolveNode sc t.to = some (.history depth default)
  outside : Outside t (parentOf t.to)
  left : s.lastLeft exit (parentOf t.to) = some leaves

/-- The path one name below the compound, on the way to the leaf. -/
def directChild (c leaf : String) : String :=
  joinSegs PATH_SEP ((segs PATH_SEP leaf).take ((segs PATH_SEP c).length + 1))

/-- The compound is as it was left: all its leaves are active again, or its child is, from its
initial path on. -/
def Restored (sc : Statechart) (depth : HistoryDepth) (c : String) (leaves : List String)
    (next : Configuration) : Prop :=
  match depth with
  | .deep => ∀ leaf, leaf ∈ leavesUnder next c ↔ leaf ∈ leaves
  | .shallow => ∃ child entered, enterLeaves sc child = some entered ∧
      (∀ leaf, leaf ∈ leavesUnder next c ↔ leaf ∈ entered) ∧ leavesUnder next c ≠ [] ∧
      (∀ leaf ∈ leavesUnder next c, directChild c leaf = child) ∧
      ∀ leaf ∈ leaves, directChild c leaf = child

/-- One leaf was to be remembered, or one child, which is entered at some leaf. The history node's
path has no empty name and is not one of `__proto__`, and a step finds the compound inactive. -/
structure Single (sc : Statechart) (s : ChartRun) (m : Move) (t : Transition)
    (depth : HistoryDepth) (leaves : List String) : Prop where
  named : ∀ name ∈ segs PATH_SEP t.to, name ≠ ""
  kept : parentOf t.to ≠ "__proto__"
  inactive : ∀ event evalWhen, m = .step event evalWhen → leavesUnder s.config (parentOf t.to) = []
  leaf : depth = .deep → ∀ leaf ∈ leaves, ∀ other ∈ leaves, leaf = other
  child : depth = .shallow → ∀ leaf ∈ leaves,
    enterLeaves sc (directChild (parentOf t.to) leaf) ≠ some [] ∧
    ∀ other ∈ leaves, directChild (parentOf t.to) leaf = directChild (parentOf t.to) other

/-! ## What is recorded -/

/-- The first active leaf under the compound that is exited. -/
def exitedLeaf (config : Configuration) (exit : List String) (c : String) : Option String :=
  config.find? fun leaf => startsWith leaf (c ++ String.singleton PATH_SEP) ∧ leaf ∈ exit

/-- A fold over names, of which each writes at most its own place. -/
theorem foldl_writes {write : LastActive → String → LastActive} {c : String} {value : Option String}
    (own : ∀ memory, write memory c c = value.or (memory c))
    (other : ∀ memory d, d ≠ c → write memory d c = memory c) (names : List String)
    (memory : LastActive) :
    names.foldl write memory c = if c ∈ names then value.or (memory c) else memory c := by
  induction names generalizing memory with
  | nil => rfl
  | cons d rest ih =>
      rw [List.foldl_cons, ih]
      by_cases same : d = c
      · subst same
        rw [if_pos List.mem_cons_self, own, ← Option.or_assoc, Option.or_self, ite_self]
      · rw [other memory d same]
        exact if_congr (by rw [List.mem_cons, or_iff_right (Ne.symm same)]) rfl rfl

theorem recordExits_apply {sc : Statechart} (config : Configuration) (exit : List String)
    (lastActive : LastActive) {c : String} (known : c ∈ compoundPaths sc) (kept : c ≠ "__proto__") :
    recordExits sc config exit lastActive c = (exitedLeaf config exit c).or (lastActive c) := by
  refine (foldl_writes (fun memory => ?_) (fun memory d apart => ?_) _ lastActive).trans
    (if_pos known)
  · unfold exitedLeaf
    generalize config.find? _ = found
    cases found with
    | none => rfl
    | some active => exact (congrFun (if_neg kept) c).trans (Function.update_self _ _ _)
  · generalize config.find? _ = found
    cases found with
    | none => rfl
    | some active =>
        by_cases dropped : d = "__proto__"
        · exact congrFun (if_pos dropped) c
        · exact (congrFun (if_neg dropped) c).trans (Function.update_of_ne (Ne.symm apart) _ _)

theorem mem_leavesUnder {config : Configuration} {c leaf : String} :
    leaf ∈ leavesUnder config c ↔
      leaf ∈ config ∧ startsWith leaf (c ++ String.singleton PATH_SEP) = true :=
  List.mem_filter

theorem exitedLeaf_eq_none {config : Configuration} {exit : List String} {c : String}
    (inactive : leavesUnder config c = []) : exitedLeaf config exit c = none := by
  refine List.find?_eq_none.mpr fun leaf mem found => ?_
  have under := mem_leavesUnder.mpr ⟨mem, (of_decide_eq_true found).1⟩
  rw [inactive] at under
  cases under

theorem exists_exitedLeaf {config : Configuration} {exit : List String} {c : String}
    (active : leavesUnder config c ≠ []) (all : ∀ leaf ∈ leavesUnder config c, leaf ∈ exit) :
    ∃ leaf ∈ leavesUnder config c, exitedLeaf config exit c = some leaf := by
  cases found : exitedLeaf config exit c with
  | none =>
      obtain ⟨leaf, under⟩ := List.exists_mem_of_ne_nil _ active
      obtain ⟨mem, below⟩ := mem_leavesUnder.mp under
      exact absurd (decide_eq_true ⟨below, all leaf under⟩) (List.find?_eq_none.mp found leaf mem)
  | some leaf =>
      unfold exitedLeaf at found
      have passes := List.find?_some found
      have facts := of_decide_eq_true passes
      exact ⟨leaf, mem_leavesUnder.mpr ⟨List.mem_of_find?_eq_some found, facts.1⟩, rfl⟩

/-! ## One move -/

namespace ChartRun

variable {sc : Statechart}

/-- A move stays, or exits and enters by the transition that it takes. -/
theorem move_cases {s s' : ChartRun} {m : Move} (fire : s.move sc m = some s') :
    (s.taken sc m = none ∧ s' = s.moveTo s.config s.lastActive) ∨
    ∃ t exit entered, s.taken sc m = some (t, exit) ∧
      enterTarget sc t.to (s.memoryFor sc exit m) = some entered ∧
      s' = s.moveTo (exitAndEnter s.config exit entered)
        (recordExits sc s.config exit s.lastActive) := by
  cases m with
  | step event evalWhen =>
      obtain ⟨r, done, rfl⟩ := Option.map_eq_some_iff.mp fire
      rw [Machine.step] at done
      cases first : firstTransition (enabled s.config event evalWhen) sc.transitions with
      | none =>
          rw [first] at done
          cases done
          exact .inl ⟨by rw [taken, first]; rfl, rfl⟩
      | some edge =>
          rw [first] at done
          obtain ⟨entered, entry, rfl⟩ := Option.map_eq_some_iff.mp done
          exact .inr ⟨edge.1, _, entered, by rw [taken, first]; rfl, entry, rfl⟩
  | join evalWhen =>
      obtain ⟨⟨p, t⟩, next, fire⟩ := Option.bind_eq_some_iff.mp fire
      obtain ⟨⟨config, recorded⟩, fired, rfl⟩ := Option.map_eq_some_iff.mp fire
      obtain ⟨entered, entry, same⟩ := Option.map_eq_some_iff.mp fired
      cases same
      exact .inr ⟨t, _, entered, by rw [taken, next]; rfl, entry, rfl⟩

theorem steps_of_settleWithin {evalWhen : EvalWhen} {fuel : Nat} {start s : ChartRun}
    (before : Steps (move sc) AnyStep start s) {next : Configuration} {recorded : LastActive}
    (done : settleWithin sc evalWhen fuel s.config s.lastActive = some (next, recorded)) :
    ∃ left, Steps (move sc) AnyStep start ⟨next, recorded, left⟩ := by
  induction fuel generalizing s with
  | zero =>
      cases done
      exact ⟨s.left, before⟩
  | succ fuel ih =>
      rw [settleWithin] at done
      cases edge : nextJoin sc evalWhen s.config with
      | none =>
          rw [edge] at done
          cases done
          exact ⟨s.left, before⟩
      | some edge' =>
          rw [edge] at done
          obtain ⟨after, fired, rest⟩ := Option.bind_eq_some_iff.mp done
          have fire : s.move sc (.join evalWhen) = some (s.moveTo after.1 after.2) := by
            rw [move, edge, Option.bind_some]
            dsimp only
            rw [fired]
            rfl
          exact ih (before.tail trivial fire) rest

/-- A macrostep is a run of joins. -/
theorem steps_of_settle {evalWhen : EvalWhen} {s : ChartRun} {next : Configuration}
    {recorded : LastActive}
    (done : settle sc s.config evalWhen s.lastActive = some (next, recorded)) :
    ∃ left, Steps (move sc) AnyStep s ⟨next, recorded, left⟩ :=
  steps_of_settleWithin .refl done

theorem left_moveTo_self {s : ChartRun} (c : String) :
    (s.moveTo s.config s.lastActive).left c = s.left c :=
  if_neg fun both => both.1 both.2

theorem left_moveTo_of_inactive {s : ChartRun} {next : Configuration} {lastActive : LastActive}
    {c : String} (inactive : leavesUnder s.config c = []) :
    (s.moveTo next lastActive).left c = s.left c :=
  if_neg fun both => both.1 inactive

theorem left_moveTo_of_left {s : ChartRun} {next : Configuration} {lastActive : LastActive}
    {c : String} (active : leavesUnder s.config c ≠ []) (inactive : leavesUnder next c = []) :
    (s.moveTo next lastActive).left c = some (leavesUnder s.config c) :=
  if_pos ⟨active, inactive⟩

theorem left_moveTo_cases {s : ChartRun} {next : Configuration} {lastActive : LastActive}
    {c : String} {leaves : List String} (left : (s.moveTo next lastActive).left c = some leaves) :
    leaves = leavesUnder s.config c ∨ s.left c = some leaves := by
  rw [moveTo] at left
  dsimp only at left
  split at left
  · exact .inl (Option.some.inj left).symm
  · exact .inr left

/-- While a compound is inactive, the memory has a leaf of what it was left with. -/
structure Remembering (sc : Statechart) (s : ChartRun) : Prop where
  under : ∀ c leaves, s.left c = some leaves → ∀ leaf ∈ leaves,
    startsWith leaf (c ++ String.singleton PATH_SEP) = true
  kept : ∀ c ∈ compoundPaths sc, c ≠ "__proto__" → leavesUnder s.config c = [] →
    ∀ leaves, s.left c = some leaves → ∃ leaf ∈ leaves, s.lastActive c = some leaf

theorem Remembering.move {s s' : ChartRun} {m : Move} (memory : s.Remembering sc)
    (fire : s.move sc m = some s') : s'.Remembering sc := by
  rcases move_cases fire with ⟨_, rfl⟩ | ⟨t, exit, entered, _, _, rfl⟩
  · refine ⟨fun c leaves left => ?_, fun c known kept inactive leaves left => ?_⟩
    · exact memory.under c leaves ((left_moveTo_self c).symm.trans left)
    · exact memory.kept c known kept inactive leaves ((left_moveTo_self c).symm.trans left)
  · refine ⟨fun c leaves left => ?_, fun c known kept inactive leaves left => ?_⟩
    · rcases left_moveTo_cases left with rfl | before
      · exact fun leaf under => (mem_leavesUnder.mp under).2
      · exact memory.under c leaves before
    · have inactive' : leavesUnder (exitAndEnter s.config exit entered) c = [] := inactive
      have recorded := recordExits_apply s.config exit s.lastActive known kept
      by_cases active : leavesUnder s.config c = []
      · rw [left_moveTo_of_inactive active] at left
        obtain ⟨leaf, mem, remembered⟩ := memory.kept c known kept active leaves left
        refine ⟨leaf, mem, recorded.trans ?_⟩
        rw [exitedLeaf_eq_none active, Option.none_or, remembered]
      · -- the compound is left now, with all its leaves
        have gone : ∀ leaf ∈ leavesUnder s.config c, leaf ∈ exit := by
          intro leaf under
          by_contra stays
          obtain ⟨mem, below⟩ := mem_leavesUnder.mp under
          have after : leaf ∈ leavesUnder (exitAndEnter s.config exit entered) c :=
            mem_leavesUnder.mpr ⟨mem_exitAndEnter.mpr (.inl ⟨mem, stays⟩), below⟩
          rw [inactive'] at after
          cases after
        obtain ⟨leaf, under, found⟩ := exists_exitedLeaf active gone
        rw [left_moveTo_of_left active inactive'] at left
        cases left
        refine ⟨leaf, under, recorded.trans ?_⟩
        rw [found, Option.some_or]

theorem remembering_of_steps {config : Configuration} {s : ChartRun}
    (run : Steps (ChartRun.move sc) AnyStep { config } s) : s.Remembering sc := by
  have start : ChartRun.Remembering sc { config } :=
    ⟨fun _ _ left => (by cases left), fun _ _ _ _ _ left => (by cases left)⟩
  exact run.invariant start fun _ _ _ memory _ fire => memory.move fire

end ChartRun

/-! ## Nodes and their paths -/

variable {sc : Statechart}

/-- The path of a node that is reached by these names. -/
def pathFrom (base : String) (names : List String) : String :=
  names.foldl (fun path name => joinPath [path, name]) base

theorem pathFrom_joinSegs {names rest : List String} (some' : joinSegs PATH_SEP names ≠ "")
    (nonempty : names ≠ []) (named : ∀ name ∈ rest, name ≠ "") :
    pathFrom (joinSegs PATH_SEP names) rest = joinSegs PATH_SEP (names ++ rest) := by
  induction rest generalizing names with
  | nil => rw [List.append_nil]; rfl
  | cons name rest ih =>
      have single : joinSegs PATH_SEP [name] = name := String.intercalate_singleton
      have longer : joinPath [joinSegs PATH_SEP names, name] = joinSegs PATH_SEP (names ++ [name]) := by
        rw [joinPath_pair some' (named name List.mem_cons_self),
          joinSegs_append nonempty (List.cons_ne_nil _ _), single]
      have proper : joinSegs PATH_SEP (names ++ [name]) ≠ "" := by
        rw [joinSegs_append nonempty (List.cons_ne_nil _ _), single]
        intro empty
        have chars := congrArg String.toList empty
        simp at chars
      rw [pathFrom, List.foldl_cons, longer]
      have later := ih proper (by simp) fun n mem => named n (List.mem_cons_of_mem _ mem)
      rw [List.append_assoc] at later
      exact later

theorem levelEntries_subset (base : String) (parent : Option StateNode) {name : String}
    {node : StateNode} {level : List (String × StateNode)} (mem : (name, node) ∈ level) :
    ⟨joinPath [base, name], parent, node⟩ ∈ levelEntries base parent level ∧
      node.entriesBelow (joinPath [base, name]) ⊆ levelEntries base parent level := by
  induction level with
  | nil => cases mem
  | cons first rest ih =>
      obtain ⟨other, node'⟩ := first
      rw [levelEntries]
      rcases List.mem_cons.mp mem with same | later
      · cases same
        exact ⟨List.mem_cons_self, fun entry below =>
          List.mem_cons_of_mem _ (List.mem_append_left _ below)⟩
      · obtain ⟨here, below⟩ := ih later
        exact ⟨List.mem_cons_of_mem _ (List.mem_append_right _ here), fun entry inside =>
          List.mem_cons_of_mem _ (List.mem_append_right _ (below inside))⟩

theorem mem_of_lookup_node {level : List (String × StateNode)} {name : String} {node : StateNode}
    (found : level.lookup name = some node) : (name, node) ∈ level := by
  obtain ⟨before, after, split, _⟩ := List.lookup_eq_some_iff.mp found
  rw [split]
  exact List.mem_append_right _ List.mem_cons_self

/-- A node that is reached has its entry, and with it the node that it is directly inside of. -/
theorem exists_entry_of_descend (base : String) (parent : Option StateNode) {names : List String}
    {level : List (String × StateNode)} {node : StateNode}
    (reached : descend level names = some node) :
    ∃ above, ⟨pathFrom base names, above, node⟩ ∈ levelEntries base parent level ∧
      (names.dropLast = [] ∧ above = parent ∨
        ∃ node', above = some node' ∧ descend level names.dropLast = some node') := by
  induction names generalizing base parent level with
  | nil => cases reached
  | cons name rest ih =>
      cases rest with
      | nil =>
          have mem := mem_of_lookup_node reached
          exact ⟨parent, (levelEntries_subset base parent mem).1, .inl ⟨rfl, rfl⟩⟩
      | cons next rest =>
          obtain ⟨child, found, reached⟩ := Option.bind_eq_some_iff.mp reached
          have mem := mem_of_lookup_node found
          have below := (levelEntries_subset base parent mem).2
          have inside : child.entriesBelow (joinPath [base, name]) =
              levelEntries (joinPath [base, name]) (some child) child.children := by
            cases child with
            | compound | parallel => rfl
            | leaf | «final» | history => rfl
          obtain ⟨above, entry, parents⟩ := ih (joinPath [base, name]) (some child) reached
          refine ⟨above, below (inside ▸ entry), .inr ?_⟩
          rcases parents with ⟨last, rfl⟩ | ⟨node', rfl, parents⟩
          · cases rest with
            | nil => exact ⟨child, rfl, found⟩
            | cons _ _ => cases last
          · cases rest with
            | nil => cases parents
            | cons after rest => exact ⟨node', rfl, Option.bind_eq_some_iff.mpr ⟨child, found, parents⟩⟩

theorem historyErrors_of_valid (valid : validateStatechart sc = some []) {entry : TreeEntry}
    (mem : entry ∈ sc.entries) : historyErrors entry = [] := by
  obtain ⟨joins, _, errors⟩ := Option.map_eq_some_iff.mp valid
  have history := (List.append_eq_nil_iff.mp (List.append_eq_nil_iff.mp
    (List.append_eq_nil_iff.mp errors).1).1).2
  exact List.flatten_eq_nil_iff.mp history _ (List.mem_map_of_mem mem)

/-- In an accepted chart the history node of a transition is in a compound, at whose path exits
are recorded. -/
theorem parentOf_mem_compoundPaths (valid : validateStatechart sc = some []) {target : String}
    {depth : HistoryDepth} {default : Option String}
    (history : resolveNode sc target = some (.history depth default))
    (named : ∀ name ∈ segs PATH_SEP target, name ≠ "") : parentOf target ∈ compoundPaths sc := by
  obtain ⟨above, entry, parents⟩ := exists_entry_of_descend "" none history
  have clean := historyErrors_of_valid valid entry
  rcases parents with ⟨_, rfl⟩ | ⟨node, rfl, reached⟩
  · cases default <;> cases clean
  obtain ⟨above', entry', _⟩ := exists_entry_of_descend "" none reached
  have path : pathFrom "" (segs PATH_SEP target).dropLast = parentOf target := by
    rw [parentOf]
    cases names : (segs PATH_SEP target).dropLast with
    | nil => rw [names] at reached; cases reached
    | cons name rest =>
        have some' : ∀ n ∈ name :: rest, n ≠ "" := fun n mem =>
          named n (List.dropLast_subset _ (names ▸ mem))
        have first : joinSegs PATH_SEP [name] = name := String.intercalate_singleton
        have here : joinPath ["", name] = name := by
          have kept : ["", name].filter (fun part => part ≠ "") = [name] := by
            simp [some' name List.mem_cons_self]
          rw [joinPath, kept, first]
        rw [pathFrom, List.foldl_cons, here]
        have proper : joinSegs PATH_SEP [name] ≠ "" := first ▸ some' name List.mem_cons_self
        have later := pathFrom_joinSegs proper (List.cons_ne_nil _ _)
          fun n mem => some' n (List.mem_cons_of_mem _ mem)
        rw [first] at later
        exact later
  rw [path] at entry'
  cases node with
  | compound initial states =>
      exact List.mem_map.mpr ⟨_, List.mem_filter.mpr ⟨entry', rfl⟩, rfl⟩
  | leaf | «final» | history | parallel => cases default <;> cases clean

/-! ## What is entered -/

theorem segs_prefix_joinPath {path : String} (proper : path ≠ "") (name : String) :
    segs PATH_SEP path <+: segs PATH_SEP (joinPath [path, name]) := by
  by_cases unnamed : name = ""
  · rw [unnamed, joinPath_empty]
  · rw [joinPath_pair proper unnamed, segs_append_sep]
    exact List.prefix_append _ _

theorem joinPath_ne_empty {path : String} (proper : path ≠ "") (name : String) :
    joinPath [path, name] ≠ "" := by
  by_cases unnamed : name = ""
  · rwa [unnamed, joinPath_empty]
  · rw [joinPath_pair proper unnamed]
    simp

/-- What is entered is the node or inside it. -/
theorem prefix_of_enterLeavesWithin {fuel : Nat} {path : String} {entered : List String}
    (proper : path ≠ "") (done : enterLeavesWithin sc fuel path = some entered) :
    ∀ leaf ∈ entered, segs PATH_SEP path <+: segs PATH_SEP leaf := by
  induction fuel generalizing path entered with
  | zero => cases done
  | succ fuel ih =>
      intro leaf mem
      rw [enterLeavesWithin] at done
      cases node : resolveNode sc path with
      | none =>
          rw [node] at done
          dsimp only at done
          split at done
          · cases done
          · cases done
            cases mem
      | some node' =>
          rw [node] at done
          cases node' with
          | leaf | «final» =>
              cases done
              rw [List.mem_singleton.mp mem]
          | history => cases done; cases mem
          | compound initial states =>
              have below := ih (joinPath_ne_empty proper initial) done leaf mem
              exact (segs_prefix_joinPath proper initial).trans below
          | parallel regions =>
              obtain ⟨parts, all, rfl⟩ := Option.map_eq_some_iff.mp done
              obtain ⟨part, inside, mem⟩ := List.mem_flatten.mp mem
              obtain ⟨region, _, here⟩ := exists_of_mapM all inside
              have below := ih (joinPath_ne_empty proper region.1) here leaf mem
              exact (segs_prefix_joinPath proper region.1).trans below

theorem segs_directChild {c leaf : String}
    (below : startsWith leaf (c ++ String.singleton PATH_SEP) = true) :
    ∃ name, segs PATH_SEP (directChild c leaf) = segs PATH_SEP c ++ [name] := by
  obtain ⟨rest, nonempty, same⟩ := below_iff.mp below
  obtain ⟨name, rest, rfl⟩ := List.exists_cons_of_ne_nil nonempty
  refine ⟨name, ?_⟩
  have taken : (segs PATH_SEP leaf).take ((segs PATH_SEP c).length + 1) = segs PATH_SEP c ++ [name] := by
    rw [same, List.take_append, List.take_of_length_le (Nat.le_succ _), Nat.add_sub_cancel_left]
    rfl
  rw [directChild, taken]
  refine segs_joinSegs (fun n mem => ?_) (by simp)
  rw [← taken] at mem
  exact not_mem_of_mem_segs (List.mem_of_mem_take mem)

/-- What is at or inside the child of a compound has that child. -/
theorem directChild_of_prefix {c child leaf : String} {name : String}
    (child' : segs PATH_SEP child = segs PATH_SEP c ++ [name])
    (inside : segs PATH_SEP child <+: segs PATH_SEP leaf) :
    startsWith leaf (c ++ String.singleton PATH_SEP) = true ∧ directChild c leaf = child := by
  obtain ⟨rest, same⟩ := inside
  rw [child', List.append_assoc] at same
  refine ⟨below_iff.mpr ⟨[name] ++ rest, by simp, same.symm⟩, ?_⟩
  rw [directChild, ← same, ← List.append_assoc, ← child']
  have length : (segs PATH_SEP c).length + 1 = (segs PATH_SEP child).length := by
    rw [child', List.length_append, List.length_singleton]
  rw [length, List.take_left, joinSegs_segs]

/-! ## Restored -/

/-- Where a remembered leaf leads. -/
def restoredLeaves (sc : Statechart) (c leaf : String) : HistoryDepth → Option (List String)
  | .deep => some [leaf]
  | .shallow => enterLeaves sc (directChild c leaf)

/-- A compound that the memory knows is entered where the memory says. -/
theorem enterTarget_of_remembered {target : String} {depth : HistoryDepth} {default : Option String}
    {memory : LastActive} {leaf : String}
    (history : resolveNode sc target = some (.history depth default))
    (remembered : memory (parentOf target) = some leaf) :
    enterTarget sc target memory = restoredLeaves sc (parentOf target) leaf depth := by
  rw [enterTarget, history]
  dsimp only
  rw [remembered]
  cases depth <;> rfl

/-- Nothing of the compound stays, and the memory has a leaf of what it was left with. -/
theorem ComesBack.remembered {s : ChartRun} {m : Move} {t : Transition} {depth : HistoryDepth}
    {exit leaves : List String} (back : ComesBack sc s m t depth exit leaves)
    (memory : s.Remembering sc) (known : parentOf t.to ∈ compoundPaths sc)
    (single : Single sc s m t depth leaves) :
    (∀ leaf ∈ leavesUnder s.config (parentOf t.to), leaf ∈ exit) ∧
    ∃ leaf ∈ leaves, startsWith leaf (parentOf t.to ++ String.singleton PATH_SEP) = true ∧
      s.memoryFor sc exit m (parentOf t.to) = some leaf := by
  have recorded := recordExits_apply s.config exit s.lastActive known single.kept
  have left := back.left
  rw [ChartRun.lastLeft] at left
  split at left
  · rename_i inactive
    obtain ⟨leaf, mem, here⟩ := memory.kept _ known single.kept inactive leaves left
    have below := memory.under _ leaves left leaf mem
    refine ⟨fun leaf under => (by rw [inactive] at under; cases under), leaf, mem, below, ?_⟩
    cases m with
    | step => exact here
    | join =>
        refine recorded.trans ?_
        rw [exitedLeaf_eq_none inactive, Option.none_or, here]
  · rename_i active
    split at left
    · rename_i gone
      cases left
      obtain ⟨leaf, under, found⟩ := exists_exitedLeaf active gone
      refine ⟨gone, leaf, under, (mem_leavesUnder.mp under).2, ?_⟩
      cases m with
      | step event evalWhen => exact absurd (single.inactive event evalWhen rfl) active
      | join =>
          refine recorded.trans ?_
          rw [found, Option.some_or]
    · cases left

/-- In any run of an accepted chart, a compound that is entered again at its history node from
outside is as it was left, if there was a single leaf, or child, to remember. -/
theorem restored_of_single (valid : validateStatechart sc = some []) {config : Configuration}
    {s s' : ChartRun} (run : Steps (ChartRun.move sc) AnyStep { config } s) {m : Move}
    {t : Transition} {depth : HistoryDepth} {exit leaves : List String}
    (back : ComesBack sc s m t depth exit leaves) (single : Single sc s m t depth leaves)
    (fire : s.move sc m = some s') : Restored sc depth (parentOf t.to) leaves s'.config := by
  obtain ⟨default, history⟩ := back.history
  have known := parentOf_mem_compoundPaths valid history single.named
  obtain ⟨gone, leaf, mem, below, remembered⟩ :=
    back.remembered (ChartRun.remembering_of_steps run) known single
  rcases ChartRun.move_cases fire with ⟨none, _⟩ | ⟨t', exit', entered, taken, entry, rfl⟩
  · rw [back.taken] at none
    cases none
  rw [back.taken] at taken
  cases taken
  rw [enterTarget_of_remembered history remembered] at entry
  -- only what is entered is active under the compound
  have active : ∀ x, x ∈ leavesUnder (exitAndEnter s.config exit entered) (parentOf t.to) ↔
      x ∈ entered ∧ startsWith x (parentOf t.to ++ String.singleton PATH_SEP) = true := by
    intro x
    rw [mem_leavesUnder, mem_exitAndEnter]
    constructor
    · rintro ⟨⟨before, stays⟩ | new, under⟩
      · exact absurd (gone x (mem_leavesUnder.mpr ⟨before, under⟩)) stays
      · exact ⟨new, under⟩
    · rintro ⟨new, under⟩
      exact ⟨.inr new, under⟩
  cases depth with
  | deep =>
      cases entry
      intro x
      refine (active x).trans ⟨fun here => List.mem_singleton.mp here.1 ▸ mem, fun here => ?_⟩
      rw [single.leaf rfl x here leaf mem]
      exact ⟨List.mem_cons_self, below⟩
  | shallow =>
      obtain ⟨some', same⟩ := single.child rfl leaf mem
      obtain ⟨name, child⟩ := segs_directChild below
      have proper : directChild (parentOf t.to) leaf ≠ "" := by
        intro empty
        rw [empty, segs_of_not_mem (by decide)] at child
        have lengths := congrArg List.length child
        have nonempty := List.length_pos_iff.mpr (@segs_ne_nil PATH_SEP (parentOf t.to))
        rw [List.length_append, List.length_singleton, List.length_singleton] at lengths
        omega
      have inside : ∀ x ∈ entered,
          startsWith x (parentOf t.to ++ String.singleton PATH_SEP) = true ∧
            directChild (parentOf t.to) x = directChild (parentOf t.to) leaf := fun x here =>
        directChild_of_prefix child (prefix_of_enterLeavesWithin proper entry x here)
      have exact' : ∀ x, x ∈ leavesUnder (exitAndEnter s.config exit entered) (parentOf t.to) ↔
          x ∈ entered := fun x => (active x).trans ⟨And.left, fun here => ⟨here, (inside x here).1⟩⟩
      refine ⟨_, entered, entry, exact', ?_, fun x under => ?_, fun x here => ?_⟩
      · cases entered with
        | nil => exact absurd entry some'
        | cons first rest => exact List.ne_nil_of_mem ((exact' first).mpr List.mem_cons_self)
      · exact (inside x ((exact' x).mp under)).2
      · exact (same x here).symm

/-! ## Two charts -/

/-- A desk that is left and taken up again where it was, or at the part that was open. -/
def desk : Statechart where
  initial := "build"
  root :=
    [("build", .compound "backend"
      [("backend", .compound "api" [("api", .leaf), ("worker", .leaf)]), ("frontend", .leaf),
        ("hist", .history .deep none), ("recent", .history .shallow none)]),
      ("idle", .leaf)]
  transitions :=
    [{ «from» := "build/backend/api", on := some "w", «to» := "build/backend/worker" },
      { «from» := "build", on := some "pause", «to» := "idle" },
      { «from» := "idle", on := some "resume", «to» := "build/hist" },
      { «from» := "idle", on := some "open", «to» := "build/recent" }]

theorem restored_of_single_desk : initialConfig desk = some ["build/backend/api"] ∧
    ∃ s, Steps (ChartRun.move desk) AnyStep { config := ["build/backend/api"] } s ∧
      (∃ resumed, s.move desk (.step "resume" none) = some resumed ∧
        Restored desk .deep "build" ["build/backend/worker"] resumed.config) ∧
      ∃ opened, s.move desk (.step "open" none) = some opened ∧
        Restored desk .shallow "build" ["build/backend/worker"] opened.config := by
  have valid : validateStatechart desk = some [] := by decide +kernel
  have replay : (runWhile (ChartRun.move desk) (fun _ _ => true)
      { config := ["build/backend/api"] } [.step "w" none, .step "pause" none]).any (fun s =>
        s.config = ["idle"] ∧ s.left "build" = some ["build/backend/worker"] ∧
          (s.move desk (.step "resume" none)).isSome ∧
          (s.move desk (.step "open" none)).isSome) = true := by decide +kernel
  obtain ⟨s, done, facts⟩ := (Option.any_eq_true _ _).mp replay
  obtain ⟨config, left, resumes, opens⟩ := of_decide_eq_true facts
  obtain ⟨resumed, resume⟩ := Option.isSome_iff_exists.mp resumes
  obtain ⟨opened, «open»⟩ := Option.isSome_iff_exists.mp opens
  have run : Steps (ChartRun.move desk) AnyStep { config := ["build/backend/api"] } s :=
    .of_runWhile (fun _ _ _ => trivial) done
  have inactive : leavesUnder s.config "build" = [] := by rw [config]; decide +kernel
  have before : s.lastLeft ["idle"] "build" = some ["build/backend/worker"] := by
    rw [ChartRun.lastLeft, if_pos inactive, left]
  refine ⟨by decide +kernel, s, run, ⟨resumed, resume, ?_⟩, opened, «open», ?_⟩
  · have back : ComesBack desk s (.step "resume" none)
        { «from» := "idle", on := some "resume", «to» := "build/hist" } .deep ["idle"]
        ["build/backend/worker"] :=
      ⟨by rw [ChartRun.taken, config]; decide +kernel, ⟨none, by rfl⟩, by decide +kernel, before⟩
    refine restored_of_single valid run back
      ⟨by decide +kernel, by decide +kernel, fun _ _ _ => inactive, fun _ => ?_, nofun⟩ resume
    intro leaf mem other mem'
    rw [List.mem_singleton.mp mem, List.mem_singleton.mp mem']
  · have back : ComesBack desk s (.step "open" none)
        { «from» := "idle", on := some "open", «to» := "build/recent" } .shallow ["idle"]
        ["build/backend/worker"] :=
      ⟨by rw [ChartRun.taken, config]; decide +kernel, ⟨none, by rfl⟩, by decide +kernel, before⟩
    refine restored_of_single valid run back
      ⟨by decide +kernel, by decide +kernel, fun _ _ _ => inactive, nofun, fun _ => ?_⟩ «open»
    intro leaf mem
    rw [List.mem_singleton.mp mem]
    exact ⟨by decide +kernel, fun other mem' => by rw [List.mem_singleton.mp mem']⟩

/-- A deep history over two regions. -/
def gates : Statechart where
  initial := "build"
  root :=
    [("build", .compound "checks"
      [("checks", .parallel [("lint", .leaf), ("test", .leaf)]), ("hist", .history .deep none)]),
      ("idle", .leaf)]
  transitions :=
    [{ «from» := "build", on := some "pause", «to» := "idle" },
      { «from» := "idle", on := some "resume", «to» := "build/hist" }]

/-- Only one of the regions comes back. -/
theorem deep_history_keeps_one_leaf : validateStatechart gates = some [] ∧
    initialConfig gates = some ["build/checks/lint", "build/checks/test"] ∧
    ∃ s s' t exit leaves,
      Steps (ChartRun.move gates) AnyStep { config := ["build/checks/lint", "build/checks/test"] } s ∧
      ComesBack gates s (.step "resume" none) t .deep exit leaves ∧
      s.move gates (.step "resume" none) = some s' ∧
      ¬ Restored gates .deep (parentOf t.to) leaves s'.config := by
  have replay : (runWhile (ChartRun.move gates) (fun _ _ => true)
      { config := ["build/checks/lint", "build/checks/test"] } [.step "pause" none]).any (fun s =>
        s.config = ["idle"] ∧
          s.lastLeft ["idle"] "build" = some ["build/checks/lint", "build/checks/test"] ∧
          (s.move gates (.step "resume" none)).any fun s' => s'.config = ["build/checks/lint"]) =
      true := by decide +kernel
  obtain ⟨s, done, facts⟩ := (Option.any_eq_true _ _).mp replay
  obtain ⟨config, left, resumes⟩ := of_decide_eq_true facts
  obtain ⟨s', fire, config'⟩ := (Option.any_eq_true _ _).mp resumes
  refine ⟨by decide +kernel, by decide +kernel, s, s',
    { «from» := "idle", on := some "resume", «to» := "build/hist" }, ["idle"], _,
    .of_runWhile (fun _ _ _ => trivial) done,
    ⟨by rw [ChartRun.taken, config]; decide +kernel, ⟨none, by rfl⟩, by decide +kernel, left⟩, fire, ?_⟩
  intro restored
  have back := (restored "build/checks/test").mpr (by decide +kernel)
  rw [of_decide_eq_true config'] at back
  revert back
  decide +kernel

end Opensquid.Machine
