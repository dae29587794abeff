import Opensquid.Lib.LegalPaths
import Opensquid.Machine.HistoryMemory

/-!
# A chart as a tree of choices

`Statechart.tree` reads a chart as a tree whose compounds are choices and whose parallels have all
their regions active. A chart is tidy if its names are plain and different, every initial and
default names a state that can be entered, and no parallel is without regions; the engine's own
validation checks a part of this only. In a tidy chart `enterLeaves` ends, and enters a legal set
of leaves (`enterLeaves_legal`).
-/

namespace Opensquid.Machine

open Opensquid.Lib Opensquid.Lib.PathText Opensquid.Lib.LegalPaths

/-! ## Nodes by their names -/

def StateNode.kind : StateNode → Option Kind
  | .leaf => some .atomic
  | .«final» => some .atomic
  | .history .. => none
  | .compound .. => some .choice
  | .parallel _ => some .all

/-- The root level is a choice as well. -/
def nodeKind (sc : Statechart) : List String → Option Kind
  | [] => some .choice
  | name :: rest => (descend sc.root (name :: rest)).bind StateNode.kind

def Statechart.tree (sc : Statechart) : PathTree String where
  kind := nodeKind sc
  child here name := (descend sc.root (here ++ [name])).isSome = true

/-- The names on the way to the active leaves. -/
def leafPaths (config : Configuration) : Set (List String) :=
  {path | ∃ leaf ∈ config, segs PATH_SEP leaf = path}

/-! ## Tidy charts -/

/-- A name that a path can be made of and that no object inherits. -/
def isPlainName (name : String) : Bool :=
  name ≠ "" ∧ PATH_SEP ∉ name.toList ∧ name ∉ objectPrototypeNames

/-- The name is one of a state that can be entered. -/
def canEnter (states : List (String × StateNode)) (name : String) : Bool :=
  (states.lookup name).any fun node => !node.isHistory

def defaultCanBeEntered (states : List (String × StateNode)) : StateNode → Bool
  | .history _ (some name) => canEnter states name
  | _ => true

mutual

def StateNode.isTidy : StateNode → Bool
  | .compound initial states => canEnter states initial &&
      states.all (fun child => defaultCanBeEntered states child.2) && levelIsTidy states
  | .parallel regions => !regions.isEmpty && regions.all (fun region => !region.2.isHistory) &&
      levelIsTidy regions
  | _ => true

def levelIsTidy : List (String × StateNode) → Bool
  | [] => true
  | (name, node) :: rest => isPlainName name && rest.all (fun other => other.1 ≠ name) &&
      node.isTidy && levelIsTidy rest

end

def Statechart.isTidy (sc : Statechart) : Bool :=
  canEnter sc.root sc.initial && sc.root.all (fun child => !child.2.isHistory) &&
    levelIsTidy sc.root

variable {sc : Statechart}

theorem levelIsTidy_mem {level : List (String × StateNode)} (tidy : levelIsTidy level = true)
    {name : String} {node : StateNode} (mem : (name, node) ∈ level) :
    isPlainName name = true ∧ node.isTidy = true := by
  induction level with
  | nil => cases mem
  | cons first rest ih =>
      obtain ⟨other, node'⟩ := first
      simp only [levelIsTidy, Bool.and_eq_true] at tidy
      rcases List.mem_cons.mp mem with same | later
      · cases same
        exact ⟨tidy.1.1.1, tidy.1.2⟩
      · exact ih tidy.2 later

theorem levelIsTidy_children {node : StateNode} (tidy : node.isTidy = true) :
    levelIsTidy node.children = true := by
  cases node with
  | compound initial states =>
      rw [StateNode.isTidy, Bool.and_eq_true] at tidy
      exact tidy.2
  | parallel regions =>
      rw [StateNode.isTidy, Bool.and_eq_true] at tidy
      exact tidy.2
  | leaf | «final» | history => rfl

/-- What is reached in a tidy level is tidy, by plain names. -/
theorem descend_tidy {names : List String} {level : List (String × StateNode)}
    (tidy : levelIsTidy level = true) {node : StateNode}
    (reached : descend level names = some node) :
    (∀ name ∈ names, isPlainName name = true) ∧ node.isTidy = true := by
  induction names generalizing level with
  | nil => cases reached
  | cons name rest ih =>
      cases rest with
      | nil =>
          obtain ⟨plain, tidy⟩ := levelIsTidy_mem tidy (mem_of_lookup_node reached)
          exact ⟨fun other mem => List.mem_singleton.mp mem ▸ plain, tidy⟩
      | cons next rest =>
          obtain ⟨child, found, reached⟩ := Option.bind_eq_some_iff.mp reached
          obtain ⟨plain, tidy⟩ := levelIsTidy_mem tidy (mem_of_lookup_node found)
          obtain ⟨plains, tidy⟩ := ih (levelIsTidy_children tidy) reached
          exact ⟨List.forall_mem_cons.mpr ⟨plain, plains⟩, tidy⟩

theorem descend_append {names rest : List String} (some' : names ≠ []) (further : rest ≠ [])
    (level : List (String × StateNode)) :
    descend level (names ++ rest) =
      (descend level names).bind fun node => descend node.children rest := by
  induction names generalizing level with
  | nil => exact absurd rfl some'
  | cons name names ih =>
      cases names with
      | nil =>
          obtain ⟨next, rest, rfl⟩ := List.exists_cons_of_ne_nil further
          rfl
      | cons next names =>
          rw [List.cons_append, List.cons_append, descend, ← List.cons_append, descend,
            Option.bind_assoc]
          exact Option.bind_congr fun node _ => ih (List.cons_ne_nil _ _) node.children

theorem descend_step {names : List String} (some' : names ≠ []) {name : String} {node : StateNode}
    (reached : descend sc.root names = some node) :
    descend sc.root (names ++ [name]) = node.children.lookup name := by
  rw [descend_append some' (List.cons_ne_nil _ _), reached]
  rfl

/-- What is reached past a node is reached from its children. -/
theorem exists_of_descend_step {names : List String} (some' : names ≠ []) {name : String}
    {node : StateNode} (reached : descend sc.root (names ++ [name]) = some node) :
    ∃ above, descend sc.root names = some above ∧ above.children.lookup name = some node := by
  rw [descend_append some' (List.cons_ne_nil _ _)] at reached
  exact Option.bind_eq_some_iff.mp reached

theorem kind_of_descend {names : List String} {node : StateNode}
    (reached : descend sc.root names = some node) : sc.tree.kind names = node.kind := by
  cases names with
  | nil => cases reached
  | cons name rest => exact congrArg (·.bind StateNode.kind) reached

theorem exists_of_kind {names : List String} (some' : names ≠ []) {kind : Kind}
    (known : sc.tree.kind names = some kind) :
    ∃ node, descend sc.root names = some node ∧ node.kind = some kind := by
  obtain ⟨name, rest, rfl⟩ := List.exists_cons_of_ne_nil some'
  exact Option.bind_eq_some_iff.mp known

/-! ## The tree is sound -/

theorem depth_lt_of_mem {level : List (String × StateNode)} {name : String} {node : StateNode}
    (mem : (name, node) ∈ level) : node.depth < levelDepth level := by
  induction level with
  | nil => cases mem
  | cons first rest ih =>
      obtain ⟨other, node'⟩ := first
      rw [levelDepth]
      rcases List.mem_cons.mp mem with same | later
      · cases same
        omega
      · have := ih later
        omega

theorem levelDepth_children (node : StateNode) : levelDepth node.children = node.depth := by
  cases node with
  | compound | parallel => rfl
  | leaf | «final» | history => rfl

/-- The depth of what is below these names. -/
def depthBelow (sc : Statechart) : List String → Nat
  | [] => levelDepth sc.root
  | name :: rest => ((descend sc.root (name :: rest)).map StateNode.depth).getD 0

theorem depthBelow_of_descend {names : List String} {node : StateNode}
    (reached : descend sc.root names = some node) : depthBelow sc names = node.depth := by
  cases names with
  | nil => cases reached
  | cons name rest => rw [depthBelow, reached]; rfl

theorem tree_sound (tidy : sc.isTidy = true) : sc.tree.Sound where
  inner := by
    intro here name node
    obtain ⟨kind, known⟩ := Option.isSome_iff_exists.mp node
    obtain ⟨node, reached, kindly⟩ := exists_of_kind (by simp) known
    refine ⟨Option.isSome_iff_exists.mpr ⟨node, reached⟩, ?_⟩
    cases here with
    | nil => exact .inl rfl
    | cons first rest =>
        obtain ⟨above, parent, child⟩ := exists_of_descend_step (List.cons_ne_nil _ _) reached
        rw [kind_of_descend parent]
        cases above with
        | compound => exact .inl rfl
        | parallel => exact .inr rfl
        | leaf | «final» | history => cases child
  populated := by
    intro here all
    cases here with
    | nil => cases all
    | cons first rest =>
        obtain ⟨node, reached, kind⟩ := exists_of_kind (List.cons_ne_nil _ _) all
        obtain ⟨-, node_tidy⟩ := descend_tidy ((Bool.and_eq_true _ _).mp tidy).2 reached
        cases node with
        | parallel regions =>
            cases regions with
            | nil => cases node_tidy
            | cons region regions =>
                refine ⟨region.1, ?_⟩
                change (descend sc.root (_ ++ [region.1])).isSome = true
                rw [descend_step (List.cons_ne_nil _ _) reached]
                obtain ⟨name, child⟩ := region
                change (List.lookup name ((name, child) :: regions)).isSome = true
                rw [List.lookup_cons_self]
                rfl
        | leaf | «final» | history | compound => cases kind
  deep := by
    refine ⟨depthBelow sc, ?_⟩
    intro here name child
    obtain ⟨node, reached⟩ := Option.isSome_iff_exists.mp child
    rw [depthBelow_of_descend reached]
    cases here with
    | nil => exact depth_lt_of_mem (mem_of_lookup_node reached)
    | cons first rest =>
        obtain ⟨above, parent, child⟩ := exists_of_descend_step (List.cons_ne_nil _ _) reached
        rw [depthBelow_of_descend parent, ← levelDepth_children above]
        exact depth_lt_of_mem (mem_of_lookup_node child)

/-! ## Paths of nodes -/

theorem isPlainName_iff {name : String} : isPlainName name = true ↔
    name ≠ "" ∧ PATH_SEP ∉ name.toList ∧ name ∉ objectPrototypeNames := decide_eq_true_iff

theorem ne_empty_of_resolves (tidy : sc.isTidy = true) {path : String} {node : StateNode}
    (resolves : resolveNode sc path = some node) : path ≠ "" := by
  intro empty
  subst empty
  obtain ⟨plain, -⟩ := descend_tidy ((Bool.and_eq_true _ _).mp tidy).2 resolves
  exact (isPlainName_iff.mp (plain "" List.mem_cons_self)).1 rfl

theorem segs_joinPath {path name : String} (proper : path ≠ "") (plain : isPlainName name = true) :
    segs PATH_SEP (joinPath [path, name]) = segs PATH_SEP path ++ [name] := by
  obtain ⟨named, single, -⟩ := isPlainName_iff.mp plain
  rw [joinPath_pair proper named, segs_append_sep, segs_of_not_mem single]

theorem isSome_lookup_iff {level : List (String × StateNode)} {name : String} :
    (level.lookup name).isSome = true ↔ name ∈ level.map Prod.fst := by
  rw [List.lookup_isSome_iff, List.mem_map]
  exact exists_congr fun entry => and_congr_right fun _ => beq_iff_eq.trans eq_comm

/-- A child of a node that resolves does so under its path. -/
theorem resolveNode_child (tidy : sc.isTidy = true) {path name : String} {node child : StateNode}
    (resolves : resolveNode sc path = some node) (found : node.children.lookup name = some child) :
    segs PATH_SEP (joinPath [path, name]) = segs PATH_SEP path ++ [name] ∧
      resolveNode sc (joinPath [path, name]) = some child := by
  have node_tidy := (descend_tidy ((Bool.and_eq_true _ _).mp tidy).2 resolves).2
  obtain ⟨plain, -⟩ := levelIsTidy_mem (levelIsTidy_children node_tidy) (mem_of_lookup_node found)
  have names := segs_joinPath (ne_empty_of_resolves tidy resolves) plain
  refine ⟨names, ?_⟩
  rw [resolveNode, names, descend_step (segs_ne_nil path) resolves, found]

theorem child_iff {path name : String} {node : StateNode}
    (resolves : resolveNode sc path = some node) :
    sc.tree.child (segs PATH_SEP path) name ↔ name ∈ node.children.map Prod.fst := by
  change (descend sc.root (segs PATH_SEP path ++ [name])).isSome = true ↔ _
  rw [descend_step (segs_ne_nil path) resolves, isSome_lookup_iff]

theorem exists_of_descend_append {names rest : List String} {level : List (String × StateNode)}
    {node : StateNode} (some' : names ≠ []) (reached : descend level (names ++ rest) = some node) :
    ∃ above, descend level names = some above := by
  cases rest with
  | nil => exact ⟨node, by rwa [List.append_nil] at reached⟩
  | cons next rest =>
      rw [descend_append some' (List.cons_ne_nil _ _)] at reached
      obtain ⟨above, parent, -⟩ := Option.bind_eq_some_iff.mp reached
      exact ⟨above, parent⟩

theorem entriesBelow_eq (path : String) (node : StateNode) :
    node.entriesBelow path = levelEntries path (some node) node.children := by
  cases node with
  | compound | parallel => rfl
  | leaf | «final» | history => rfl

theorem joinSegs_ne_empty {names : List String} (some' : names ≠ [])
    (plain : ∀ name ∈ names, isPlainName name = true) : joinSegs PATH_SEP names ≠ "" := by
  intro empty
  have whole := @segs_joinSegs PATH_SEP names
    (fun name mem => (isPlainName_iff.mp (plain name mem)).2.1) some'
  rw [empty] at whole
  have unnamed : "" ∈ names := whole ▸ List.mem_cons_self
  exact (isPlainName_iff.mp (plain "" unnamed)).1 rfl

theorem joinPath_joinSegs {above : List String} {name : String}
    (plain : ∀ name ∈ above, isPlainName name = true) (named : isPlainName name = true) :
    joinPath [joinSegs PATH_SEP above, name] = joinSegs PATH_SEP (above ++ [name]) := by
  have proper := (isPlainName_iff.mp named).1
  have single : joinSegs PATH_SEP [name] = name := String.intercalate_singleton
  cases above with
  | nil =>
      have kept : ["", name].filter (fun part => part ≠ "") = [name] := by simp [proper]
      change joinPath ["", name] = _
      rw [joinPath, kept]
      rfl
  | cons first others =>
      rw [joinPath_pair (joinSegs_ne_empty (List.cons_ne_nil _ _) plain) proper,
        joinSegs_append (List.cons_ne_nil _ _) (List.cons_ne_nil _ _), single]

/-- In a tidy level every entry's path is that of a node which is reached. -/
theorem reached_of_entry {bound : Nat} {level : List (String × StateNode)} {above : List String}
    {parent : Option StateNode} {entry : TreeEntry} (tidy : levelIsTidy level = true)
    (plain : ∀ name ∈ above, isPlainName name = true) (few : levelDepth level ≤ bound)
    (mem : entry ∈ levelEntries (joinSegs PATH_SEP above) parent level) :
    ∃ names, names ≠ [] ∧ entry.path = joinSegs PATH_SEP (above ++ names) ∧
      (descend level names).isSome = true := by
  induction bound generalizing level above parent with
  | zero =>
      cases level with
      | nil => cases mem
      | cons first rest =>
          rw [levelDepth] at few
          omega
  | succ bound ih =>
      induction level with
      | nil => cases mem
      | cons first rest ih' =>
          obtain ⟨name, node⟩ := first
          simp only [levelIsTidy, Bool.and_eq_true] at tidy
          obtain ⟨⟨⟨named, apart⟩, node_tidy⟩, rest_tidy⟩ := tidy
          rw [levelDepth] at few
          have path := joinPath_joinSegs plain named
          rw [levelEntries] at mem
          rcases List.mem_cons.mp mem with rfl | mem
          · refine ⟨[name], List.cons_ne_nil _ _, path, ?_⟩
            rw [descend, List.lookup_cons_self]
            rfl
          rcases List.mem_append.mp mem with below | later
          · rw [entriesBelow_eq, path] at below
            obtain ⟨names, some', same, reached⟩ := ih (levelIsTidy_children node_tidy)
              (List.forall_mem_append.mpr ⟨plain, List.forall_mem_singleton.mpr named⟩)
              (by rw [levelDepth_children]; omega) below
            obtain ⟨next, names, rfl⟩ := List.exists_cons_of_ne_nil some'
            refine ⟨name :: next :: names, List.cons_ne_nil _ _, ?_, ?_⟩
            · rw [same, List.append_assoc]
              rfl
            · rw [descend, List.lookup_cons_self]
              exact reached
          · obtain ⟨names, some', same, reached⟩ := ih' rest_tidy (by omega) later
            obtain ⟨next, names, rfl⟩ := List.exists_cons_of_ne_nil some'
            refine ⟨next :: names, some', same, ?_⟩
            have known : (rest.lookup next).isSome = true := by
              cases names with
              | nil => exact reached
              | cons after names =>
                  obtain ⟨last, reached⟩ := Option.isSome_iff_exists.mp reached
                  obtain ⟨child, found, -⟩ := Option.bind_eq_some_iff.mp reached
                  rw [found]
                  rfl
            obtain ⟨other, listed, rfl⟩ := List.mem_map.mp (isSome_lookup_iff.mp known)
            have differs := of_decide_eq_true (List.all_eq_true.mp apart other listed)
            have skip : List.lookup other.1 ((name, node) :: rest) = List.lookup other.1 rest := by
              rw [List.lookup_cons, beq_false_of_ne differs]
            cases names with
            | nil => rwa [descend, skip]
            | cons after names => rwa [descend, skip]

theorem resolves_of_mem_allPaths (tidy : sc.isTidy = true) {path : String}
    (declared : path ∈ allPaths sc) : ∃ node, resolveNode sc path = some node := by
  obtain ⟨entry, mem, rfl⟩ := List.mem_map.mp declared
  have levels := ((Bool.and_eq_true _ _).mp tidy).2
  obtain ⟨names, some', same, reached⟩ :=
    @reached_of_entry _ _ [] _ _ levels (List.forall_mem_nil _) (Nat.le_refl _) mem
  obtain ⟨node, reached⟩ := Option.isSome_iff_exists.mp reached
  refine ⟨node, ?_⟩
  have plain := (descend_tidy levels reached).1
  rw [resolveNode, same, List.nil_append, segs_joinSegs
    (fun name mem => (isPlainName_iff.mp (plain name mem)).2.1) some']
  exact reached

/-! ## Entering -/

theorem leafPaths_flatten {α : Type} (items : List α) (leaves : α → List String) :
    leafPaths (items.map leaves).flatten =
      {path | ∃ item ∈ items, path ∈ leafPaths (leaves item)} := by
  ext path
  constructor
  · rintro ⟨leaf, mem, rfl⟩
    obtain ⟨_, listed, mem⟩ := List.mem_flatten.mp mem
    obtain ⟨item, known, rfl⟩ := List.mem_map.mp listed
    exact ⟨item, known, leaf, mem, rfl⟩
  · rintro ⟨item, known, leaf, mem, rfl⟩
    exact ⟨leaf, List.mem_flatten.mpr ⟨_, List.mem_map_of_mem known, mem⟩, rfl⟩

theorem leafPaths_singleton (path : String) : leafPaths [path] = {segs PATH_SEP path} := by
  ext names
  constructor
  · rintro ⟨leaf, mem, rfl⟩
    rw [List.mem_singleton.mp mem]
    rfl
  · rintro rfl
    exact ⟨path, List.mem_cons_self, rfl⟩

/-- Entering a node of a tidy chart ends, in a legal set of leaves. -/
theorem enterLeavesWithin_legal (tidy : sc.isTidy = true) {fuel : Nat} {path : String}
    {node : StateNode} (resolves : resolveNode sc path = some node)
    (state : node.isHistory = false) (enough : node.depth < fuel) :
    ∃ leaves, enterLeavesWithin sc fuel path = some leaves ∧
      Legal sc.tree (segs PATH_SEP path) (leafPaths leaves) := by
  induction fuel generalizing path node with
  | zero => cases enough
  | succ fuel ih =>
      have node_tidy := (descend_tidy ((Bool.and_eq_true _ _).mp tidy).2 resolves).2
      have kind := kind_of_descend resolves
      rw [enterLeavesWithin, resolves]
      cases node with
      | history => cases state
      | leaf =>
          refine ⟨[path], rfl, ?_⟩
          rw [leafPaths_singleton]
          exact .atomic kind
      | «final» =>
          refine ⟨[path], rfl, ?_⟩
          rw [leafPaths_singleton]
          exact .atomic kind
      | compound initial states =>
          simp only [StateNode.isTidy, Bool.and_eq_true] at node_tidy
          obtain ⟨child, found, state⟩ := (Option.any_eq_true _ _).mp node_tidy.1.1
          obtain ⟨names, inner⟩ := resolveNode_child tidy resolves found
          have shallower := depth_lt_of_mem (mem_of_lookup_node found)
          obtain ⟨leaves, done, legal⟩ := ih inner (Bool.not_eq_true' _ |>.mp state)
            (Nat.lt_of_lt_of_le shallower (Nat.lt_succ_iff.mp enough))
          refine ⟨leaves, done, .choice kind ?_ (names ▸ legal)⟩
          have known : (states.lookup initial).isSome = true := by
            rw [found]
            rfl
          exact (child_iff resolves).mpr (isSome_lookup_iff.mp known)
      | parallel regions =>
          simp only [StateNode.isTidy, Bool.and_eq_true] at node_tidy
          have each : ∀ name ∈ regions.map Prod.fst, ∃ leaves,
              enterLeavesWithin sc fuel (joinPath [path, name]) = some leaves ∧
                Legal sc.tree (segs PATH_SEP path ++ [name]) (leafPaths leaves) := by
            intro name mem
            obtain ⟨child, found⟩ := Option.isSome_iff_exists.mp (isSome_lookup_iff.mpr mem)
            obtain ⟨names, inner⟩ := resolveNode_child tidy resolves found
            have inside := mem_of_lookup_node found
            have state := List.all_eq_true.mp node_tidy.1.2 _ inside
            have shallower := depth_lt_of_mem inside
            rw [← names]
            exact ih inner (Bool.not_eq_true' _ |>.mp state)
              (Nat.lt_of_lt_of_le shallower (Nat.lt_succ_iff.mp enough))
          let leavesOf (name : String) : List String :=
            (enterLeavesWithin sc fuel (joinPath [path, name])).getD []
          have entered : regions.mapM (fun region =>
              enterLeavesWithin sc fuel (joinPath [path, region.1])) =
              some (regions.map fun region => leavesOf region.1) := by
            refine mapM_of_forall fun region mem => ?_
            obtain ⟨leaves, done, -⟩ := each region.1 (List.mem_map_of_mem mem)
            change _ = some ((enterLeavesWithin sc fuel (joinPath [path, region.1])).getD [])
            rw [done]
            rfl
          have inside : ∀ name, sc.tree.child (segs PATH_SEP path) name →
              Legal sc.tree (segs PATH_SEP path ++ [name]) (leafPaths (leavesOf name)) := by
            intro name child
            obtain ⟨leaves, done, legal⟩ := each name ((child_iff resolves).mp child)
            change Legal _ _
              (leafPaths ((enterLeavesWithin sc fuel (joinPath [path, name])).getD []))
            rwa [done]
          refine ⟨_, congrArg (Option.map List.flatten) entered, ?_⟩
          rw [leafPaths_flatten]
          convert Legal.all kind inside using 1
          ext leaf
          constructor
          · rintro ⟨region, known, mem⟩
            exact ⟨region.1, (child_iff resolves).mpr (List.mem_map_of_mem known), mem⟩
          · rintro ⟨name, child, mem⟩
            obtain ⟨region, known, rfl⟩ := List.mem_map.mp ((child_iff resolves).mp child)
            exact ⟨region, known, mem⟩

theorem depth_lt_of_descend {names : List String} {level : List (String × StateNode)}
    {node : StateNode} (reached : descend level names = some node) :
    node.depth < levelDepth level := by
  induction names generalizing level with
  | nil => cases reached
  | cons name rest ih =>
      cases rest with
      | nil => exact depth_lt_of_mem (mem_of_lookup_node reached)
      | cons next rest =>
          obtain ⟨child, found, reached⟩ := Option.bind_eq_some_iff.mp reached
          have inner := ih reached
          have outer := depth_lt_of_mem (mem_of_lookup_node found)
          rw [levelDepth_children] at inner
          omega

theorem enterLeaves_legal (tidy : sc.isTidy = true) {path : String} {node : StateNode}
    (resolves : resolveNode sc path = some node) (state : node.isHistory = false) :
    ∃ leaves, enterLeaves sc path = some leaves ∧
      Legal sc.tree (segs PATH_SEP path) (leafPaths leaves) :=
  enterLeavesWithin_legal tidy resolves state (Nat.lt_succ_of_lt (depth_lt_of_descend resolves))

end Opensquid.Machine
