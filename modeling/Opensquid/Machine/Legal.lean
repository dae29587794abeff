import Opensquid.Machine.ChartTree
import Opensquid.Machine.Settle

/-!
# Legal configurations

A configuration is legal if exactly one top-level state is active, every active compound has one
active child, every active parallel has all its regions active, and every path is that of an atomic
node. The engine takes what it exits from the texts of both paths of a transition, and what it
enters from its target alone. So a target that lies in one of several regions, seen from where the
transition's exit begins, is entered without the others; a join leaves the parallel alone and
nothing around it; and a deep history brings one leaf back.

* `run_legal`: in a tidy chart whose transitions do none of this, every run of steps and macrosteps
  goes through, and every configuration that it reaches is legal.
* `step_legal_iff`: a transition that is fired in a legal configuration leads to a legal one just
  if its target is not in one of several regions.
-/

namespace Opensquid.Machine

open Opensquid.Lib Opensquid.Lib.PathText Opensquid.Lib.LegalPaths

variable {sc : Statechart}

/-! ## In words -/

structure LegalConfiguration (sc : Statechart) (config : Configuration) : Prop where
  atomic : ∀ leaf ∈ config, (resolveNode sc leaf).any StateNode.isAtomic = true
  top : ∃! name, name ∈ sc.root.map Prod.fst ∧ isActive config name = true
  compound : ∀ path initial states, resolveNode sc path = some (.compound initial states) →
    isActive config path = true →
    ∃! name, name ∈ states.map Prod.fst ∧ isActive config (joinPath [path, name]) = true
  parallel : ∀ path regions, resolveNode sc path = some (.parallel regions) →
    isActive config path = true →
    ∀ region ∈ regions, isActive config (joinPath [path, region.1]) = true

theorem active_iff {config : Configuration} {path : String} :
    isActive config path = true ↔ Active (leafPaths config) (segs PATH_SEP path) := by
  rw [isActive_iff]
  constructor
  · rintro ⟨leaf, mem, below⟩
    exact ⟨_, ⟨leaf, mem, rfl⟩, below⟩
  · rintro ⟨_, ⟨leaf, mem, rfl⟩, below⟩
    exact ⟨leaf, mem, below⟩

theorem kind_eq_atomic {node : StateNode} : node.kind = some .atomic ↔ node.isAtomic = true := by
  cases node with
  | leaf | «final» => exact iff_of_true rfl rfl
  | history | compound | parallel => exact iff_of_false nofun nofun

theorem kind_eq_choice {node : StateNode} :
    node.kind = some .choice ↔ ∃ initial states, node = .compound initial states := by
  cases node with
  | compound initial states => exact iff_of_true rfl ⟨initial, states, rfl⟩
  | leaf | «final» | history | parallel => exact iff_of_false nofun nofun

theorem kind_eq_all {node : StateNode} :
    node.kind = some .all ↔ ∃ regions, node = .parallel regions := by
  cases node with
  | parallel regions => exact iff_of_true rfl ⟨regions, rfl⟩
  | leaf | «final» | history | compound => exact iff_of_false nofun nofun

/-- Names that reach a node are those of its path. -/
theorem segs_of_descend (tidy : sc.isTidy = true) {names : List String} {node : StateNode}
    (reached : descend sc.root names = some node) :
    segs PATH_SEP (joinSegs PATH_SEP names) = names := by
  have plain := (descend_tidy ((Bool.and_eq_true _ _).mp tidy).2 reached).1
  refine segs_joinSegs (fun name mem => (isPlainName_iff.mp (plain name mem)).2.1) ?_
  intro none
  subst none
  cases reached

theorem plain_of_root (tidy : sc.isTidy = true) {name : String}
    (known : name ∈ sc.root.map Prod.fst) : segs PATH_SEP name = [name] := by
  obtain ⟨⟨_, node⟩, mem, rfl⟩ := List.mem_map.mp known
  have plain := (levelIsTidy_mem ((Bool.and_eq_true _ _).mp tidy).2 mem).1
  exact segs_of_not_mem (isPlainName_iff.mp plain).2.1

theorem root_child_iff {name : String} : sc.tree.child [] name ↔ name ∈ sc.root.map Prod.fst :=
  isSome_lookup_iff

theorem segs_child (tidy : sc.isTidy = true) {path name : String} {node : StateNode}
    (resolves : resolveNode sc path = some node) (known : name ∈ node.children.map Prod.fst) :
    segs PATH_SEP (joinPath [path, name]) = segs PATH_SEP path ++ [name] := by
  obtain ⟨child, found⟩ := Option.isSome_iff_exists.mp (isSome_lookup_iff.mpr known)
  exact (resolveNode_child tidy resolves found).1

theorem legalConfiguration_iff (tidy : sc.isTidy = true) {config : Configuration} :
    LegalConfiguration sc config ↔ Legal sc.tree [] (leafPaths config) := by
  rw [legal_iff (tree_sound tidy)]
  constructor
  · intro legal
    obtain ⟨name, ⟨-, active⟩, -⟩ := legal.top
    obtain ⟨path, mem, -⟩ := active_iff.mp active
    refine ⟨⟨path, mem, List.nil_prefix⟩, ?_, ?_, ?_⟩
    · rintro _ ⟨leaf, mem, rfl⟩
      obtain ⟨node, resolves, atomic⟩ := (Option.any_eq_true _ _).mp (legal.atomic leaf mem)
      exact ⟨List.nil_prefix, (kind_of_descend resolves).trans (kind_eq_atomic.mpr atomic)⟩
    · intro names _ kind active
      cases names with
      | nil =>
          obtain ⟨name, ⟨known, active⟩, unique⟩ := legal.top
          rw [active_iff, plain_of_root tidy known] at active
          refine ⟨name, ⟨root_child_iff.mpr known, active⟩, ?_⟩
          rintro other ⟨child, found⟩
          have known' := root_child_iff.mp child
          refine unique other ⟨known', ?_⟩
          rwa [active_iff, plain_of_root tidy known']
      | cons first rest =>
          obtain ⟨node, reached, choice⟩ := exists_of_kind (List.cons_ne_nil _ _) kind
          obtain ⟨initial, states, rfl⟩ := kind_eq_choice.mp choice
          have names := segs_of_descend tidy reached
          have resolves : resolveNode sc (joinSegs PATH_SEP (first :: rest)) =
              some (.compound initial states) := by rwa [resolveNode, names]
          obtain ⟨name, ⟨known, found⟩, unique⟩ := legal.compound _ initial states resolves
            (by rwa [active_iff, names])
          rw [active_iff, segs_child tidy resolves known, names] at found
          rw [← names]
          refine ⟨name, ⟨(child_iff resolves).mpr known, names.symm ▸ found⟩, ?_⟩
          rintro other ⟨child, active⟩
          have known' := (child_iff resolves).mp child
          refine unique other ⟨known', ?_⟩
          rwa [active_iff, segs_child tidy resolves known']
    · intro names _ kind active name child
      cases names with
      | nil => cases kind
      | cons first rest =>
          obtain ⟨node, reached, all⟩ := exists_of_kind (List.cons_ne_nil _ _) kind
          obtain ⟨regions, rfl⟩ := kind_eq_all.mp all
          have names := segs_of_descend tidy reached
          have resolves : resolveNode sc (joinSegs PATH_SEP (first :: rest)) =
              some (.parallel regions) := by rwa [resolveNode, names]
          rw [← names] at child
          have known := (child_iff resolves).mp child
          obtain ⟨region, listed, rfl⟩ := List.mem_map.mp known
          have found := legal.parallel _ regions resolves (by rwa [active_iff, names]) region listed
          rwa [active_iff, segs_child tidy resolves known, names] at found
  · rintro ⟨active, proper⟩
    refine ⟨?_, ?_, ?_, ?_⟩
    · intro leaf mem
      obtain ⟨node, resolves, atomic⟩ := exists_of_kind (segs_ne_nil leaf)
        (proper.atomic _ ⟨leaf, mem, rfl⟩).2
      exact (Option.any_eq_true _ _).mpr ⟨node, resolves, kind_eq_atomic.mp atomic⟩
    · obtain ⟨name, ⟨child, found⟩, unique⟩ := proper.choice (List.prefix_refl _) rfl active
      have known := root_child_iff.mp child
      refine ⟨name, ⟨known, by rwa [active_iff, plain_of_root tidy known]⟩, ?_⟩
      rintro other ⟨known', active⟩
      rw [active_iff, plain_of_root tidy known'] at active
      exact unique other ⟨root_child_iff.mpr known', active⟩
    · intro path initial states resolves active
      obtain ⟨name, ⟨child, found⟩, unique⟩ :=
        proper.choice List.nil_prefix (kind_of_descend resolves) (active_iff.mp active)
      have known := (child_iff resolves).mp child
      refine ⟨name, ⟨known, by rwa [active_iff, segs_child tidy resolves known]⟩, ?_⟩
      rintro other ⟨known', active⟩
      rw [active_iff, segs_child tidy resolves known'] at active
      exact unique other ⟨(child_iff resolves).mpr known', active⟩
    · intro path regions resolves active region listed
      have known : region.1 ∈ (StateNode.parallel regions).children.map Prod.fst :=
        List.mem_map_of_mem listed
      rw [active_iff, segs_child tidy resolves known]
      exact proper.all List.nil_prefix (kind_of_descend resolves) (active_iff.mp active) _
        ((child_iff resolves).mpr known)

/-! ## Ways in a chart -/

/-- With the child of this name all of the node is active. -/
def StateNode.isWhole (name : String) : StateNode → Bool
  | .parallel regions => regions.all fun region => region.1 = name
  | _ => true

/-- The way down by the names passes no parallel with another region. -/
def clearWay (sc : Statechart) : List String → List String → Bool
  | _, [] => true
  | here, name :: rest =>
      (descend sc.root here).all (StateNode.isWhole name) && clearWay sc (here ++ [name]) rest

theorem single_iff {here : List String} {name : String} {node : StateNode}
    (reached : descend sc.root (here ++ [name]) = some node) :
    (descend sc.root here).all (StateNode.isWhole name) = true ↔
      LegalPaths.Single sc.tree here name := by
  have child : sc.tree.child here name := Option.isSome_iff_exists.mpr ⟨node, reached⟩
  cases here with
  | nil => exact iff_of_true rfl ⟨child, .inl rfl⟩
  | cons first rest =>
      obtain ⟨above, parent, found⟩ := exists_of_descend_step (List.cons_ne_nil _ _) reached
      have kind := kind_of_descend parent
      rw [parent]
      cases above with
      | leaf | «final» | history => cases found
      | compound initial states => exact iff_of_true rfl ⟨child, .inl kind⟩
      | parallel regions =>
          have others : ∀ other, sc.tree.child (first :: rest) other ↔
              other ∈ regions.map Prod.fst := fun other => by
            change (descend sc.root (first :: rest ++ [other])).isSome = true ↔ _
            rw [descend_step (List.cons_ne_nil _ _) parent]
            exact isSome_lookup_iff
          refine List.all_eq_true.trans ⟨fun whole => ⟨child, .inr ⟨kind, fun other known => ?_⟩⟩,
            fun single region mem => decide_eq_true ?_⟩
          · obtain ⟨region, mem, rfl⟩ := List.mem_map.mp ((others other).mp known)
            exact of_decide_eq_true (whole region mem)
          · rcases single.2 with choice | ⟨-, only⟩
            · rw [kind] at choice
              cases choice
            · exact only _ ((others _).mpr (List.mem_map_of_mem mem))

theorem clearWay_iff {here rest : List String} {node : StateNode}
    (reached : descend sc.root (here ++ rest) = some node) :
    clearWay sc here rest = true ↔ Way sc.tree here rest := by
  induction rest generalizing here with
  | nil => exact iff_of_true rfl trivial
  | cons name rest ih =>
      rw [List.append_cons] at reached
      obtain ⟨child, next⟩ := exists_of_descend_append (by simp) reached
      rw [clearWay, Bool.and_eq_true, single_iff next, ih reached]
      rfl

mutual

/-- No parallel at or below the node has several regions. -/
def StateNode.isForkless : StateNode → Bool
  | .compound _ states => levelIsForkless states
  | .parallel regions => regions.length ≤ 1 && levelIsForkless regions
  | _ => true

def levelIsForkless : List (String × StateNode) → Bool
  | [] => true
  | (_, node) :: rest => node.isForkless && levelIsForkless rest

end

theorem levelIsForkless_mem {level : List (String × StateNode)}
    (forkless : levelIsForkless level = true) {name : String} {node : StateNode}
    (mem : (name, node) ∈ level) : node.isForkless = true := by
  induction level with
  | nil => cases mem
  | cons first rest ih =>
      obtain ⟨other, node'⟩ := first
      rw [levelIsForkless, Bool.and_eq_true] at forkless
      rcases List.mem_cons.mp mem with same | later
      · cases same
        exact forkless.1
      · exact ih forkless.2 later

theorem isForkless_child {node child : StateNode} (forkless : node.isForkless = true)
    {name : String} (found : node.children.lookup name = some child) :
    node.isWhole name = true ∧ child.isForkless = true := by
  have mem := mem_of_lookup_node found
  cases node with
  | leaf | «final» | history => cases found
  | compound initial states => exact ⟨rfl, levelIsForkless_mem forkless mem⟩
  | parallel regions =>
      rw [StateNode.isForkless, Bool.and_eq_true] at forkless
      refine ⟨List.all_eq_true.mpr fun region other => decide_eq_true ?_,
        levelIsForkless_mem forkless.2 mem⟩
      have few := of_decide_eq_true forkless.1
      match regions, few with
      | [only], _ => rw [List.mem_singleton.mp other, ← List.mem_singleton.mp mem]

/-- Below a node without forks every way is clear. -/
theorem clearWay_of_forkless {here rest : List String} {node last : StateNode}
    (parent : descend sc.root here = some node) (forkless : node.isForkless = true)
    (reached : descend sc.root (here ++ rest) = some last) : clearWay sc here rest = true := by
  induction rest generalizing here node with
  | nil => rfl
  | cons name rest ih =>
      have some' : here ≠ [] := by
        intro none
        subst none
        cases parent
      rw [List.append_cons] at reached
      obtain ⟨child, next⟩ := exists_of_descend_append (by simp) reached
      have found := next
      rw [descend_step some' parent] at found
      obtain ⟨whole, forkless⟩ := isForkless_child forkless found
      rw [clearWay, parent, Bool.and_eq_true]
      exact ⟨whole, ih next forkless reached⟩

/-! ## Exits -/

/-- The names on the way to where a transition's exit begins. -/
def scopeNames (sc : Statechart) (t : Transition) : List String :=
  if t.from = ANY_STATE then []
  else commonPrefix (segs PATH_SEP t.from) (segs PATH_SEP (effectiveTo sc t.to))

theorem exitScope_eq (t : Transition) : exitScope sc t = joinSegs PATH_SEP (scopeNames sc t) := by
  unfold exitScope scopeNames
  split
  · rfl
  · rfl

theorem commonPrefix_right (a b : List String) : commonPrefix a b <+: b := by
  induction a generalizing b with
  | nil => exact List.nil_prefix
  | cons head tail ih =>
      cases b with
      | nil => exact List.nil_prefix
      | cons head' tail' =>
          rw [commonPrefix]
          split
          · rename_i same
            subst same
            exact (List.prefix_cons_inj head).mpr (ih tail')
          · exact List.nil_prefix

/-- What stays and what is entered, where the exit is what is active at or below some node. -/
theorem leafPaths_exitAndEnter {config entered : Configuration} {scope : List String}
    (plain : ∀ name ∈ scope, isPlainName name = true) :
    leafPaths (exitAndEnter config (descendantsOf config (joinSegs PATH_SEP scope)) entered) =
      outside (leafPaths config) scope ∪ leafPaths entered := by
  have exits : ∀ leaf ∈ config, leaf ∈ descendantsOf config (joinSegs PATH_SEP scope) ↔
      scope <+: segs PATH_SEP leaf := by
    intro leaf mem
    rw [descendantsOf]
    by_cases root : scope = []
    · subst root
      exact iff_of_true mem List.nil_prefix
    · have names := @segs_joinSegs PATH_SEP scope
        (fun name mem => (isPlainName_iff.mp (plain name mem)).2.1) root
      rw [if_neg (joinSegs_ne_empty root plain), List.mem_filter, decide_eq_true_eq,
        eq_or_below_iff, names]
      exact and_iff_right mem
  ext path
  constructor
  · rintro ⟨leaf, mem, rfl⟩
    rcases mem_exitAndEnter.mp mem with ⟨known, stays⟩ | entered
    · exact .inl ⟨⟨leaf, known, rfl⟩, fun below => stays ((exits leaf known).mpr below)⟩
    · exact .inr ⟨leaf, entered, rfl⟩
  · rintro (⟨⟨leaf, known, rfl⟩, apart⟩ | ⟨leaf, entered, rfl⟩)
    · exact ⟨leaf, mem_exitAndEnter.mpr (.inl ⟨known, fun exit =>
        apart ((exits leaf known).mp exit)⟩), rfl⟩
    · exact ⟨leaf, mem_exitAndEnter.mpr (.inr entered), rfl⟩

/-! ## Targets -/

/-- Every remembered text is the path of an atomic node inside the compound. -/
def Remembers (sc : Statechart) (lastActive : LastActive) : Prop :=
  ∀ c leaf, lastActive c = some leaf →
    (∃ node, resolveNode sc leaf = some node ∧ node.isAtomic = true) ∧
      ∃ rest, rest ≠ [] ∧ segs PATH_SEP leaf = segs PATH_SEP c ++ rest

theorem Remembers.recordExits {lastActive : LastActive} (memory : Remembers sc lastActive)
    {config : Configuration} (legal : Legal sc.tree [] (leafPaths config)) (exit : List String) :
    Remembers sc (recordExits sc config exit lastActive) := by
  unfold Machine.recordExits
  generalize compoundPaths sc = compounds
  induction compounds generalizing lastActive with
  | nil => exact memory
  | cons c rest ih =>
      refine ih ?_
      dsimp only
      split
      · rename_i active found
        split
        · exact memory
        · intro other leaf known
          by_cases same : other = c
          · subst same
            rw [Function.update_self] at known
            cases known
            have mem := List.mem_of_find?_eq_some found
            have passes := List.find?_some found
            have below := (of_decide_eq_true passes).1
            obtain ⟨node, resolves, atomic⟩ := exists_of_kind (segs_ne_nil active)
              (legal.kind_eq ⟨active, mem, rfl⟩)
            exact ⟨⟨node, resolves, kind_eq_atomic.mp atomic⟩, below_iff.mp below⟩
          · rw [Function.update_of_ne same] at known
            exact memory other leaf known
      · exact memory

/-- In a tidy chart a history node is directly inside a compound. -/
theorem exists_of_history (tidy : sc.isTidy = true) {target : String} {depth : HistoryDepth}
    {default : Option String} (history : resolveNode sc target = some (.history depth default)) :
    ∃ initial states, resolveNode sc (parentOf target) = some (.compound initial states) ∧
      (∀ name ∈ default, canEnter states name = true) ∧
      parentOf target ∉ objectPrototypeNames := by
  have levels := (Bool.and_eq_true _ _).mp tidy
  have names := List.dropLast_append_getLast (@segs_ne_nil PATH_SEP target)
  unfold resolveNode at history
  rw [← names] at history
  have plain := (descend_tidy levels.2 history).1
  by_cases top : (segs PATH_SEP target).dropLast = []
  · rw [top] at history
    have state := List.all_eq_true.mp ((Bool.and_eq_true _ _).mp levels.1).2 _
      (mem_of_lookup_node history)
    cases state
  obtain ⟨above, parent, found⟩ := exists_of_descend_step top history
  have inside := mem_of_lookup_node found
  have above_tidy := (descend_tidy levels.2 parent).2
  have whole := segs_of_descend tidy parent
  have resolves : resolveNode sc (parentOf target) = some above := by
    rw [resolveNode, parentOf, whole, parent]
  cases above with
  | leaf | «final» | history => cases found
  | parallel regions =>
      simp only [StateNode.isTidy, Bool.and_eq_true] at above_tidy
      have state := List.all_eq_true.mp above_tidy.1.2 _ inside
      cases state
  | compound initial states =>
      simp only [StateNode.isTidy, Bool.and_eq_true] at above_tidy
      refine ⟨initial, states, resolves, fun name mem => ?_, fun inherited => ?_⟩
      · have enters := List.all_eq_true.mp above_tidy.1.2 _ inside
        cases default with
        | none => cases mem
        | some other =>
            cases mem
            exact enters
      · have single : ∀ name ∈ objectPrototypeNames, PATH_SEP ∉ name.toList := by decide
        have alone := segs_of_not_mem (single _ inherited)
        rw [parentOf, whole] at alone
        have proper := (isPlainName_iff.mp (plain (parentOf target) (by
          rw [alone]
          exact List.mem_append_left _ List.mem_cons_self))).2.2
        exact proper inherited

def StateNode.isDeepHistory : StateNode → Bool
  | .history .deep _ => true
  | _ => false

/-- One leaf is all that a deep history has to bring back. -/
def restores (sc : Statechart) («to» : String) : Bool :=
  !(resolveNode sc «to»).any StateNode.isDeepHistory ||
    (resolveNode sc (parentOf «to»)).all StateNode.isForkless

/-- The way from the compound to the leaf that its deep history remembers is clear. -/
def restoresLeaf (sc : Statechart) (lastActive : LastActive) («to» : String) : Bool :=
  !(resolveNode sc «to»).any StateNode.isDeepHistory ||
    (lastActive (parentOf «to»)).all fun leaf =>
      clearWay sc (segs PATH_SEP (parentOf «to»))
        ((segs PATH_SEP leaf).drop (segs PATH_SEP (parentOf «to»)).length)

/-- A step's way from where its exit starts to its target is clear, with this memory. -/
def Transition.stepIsClear (sc : Statechart) (lastActive : LastActive) (t : Transition) : Bool :=
  let scope := scopeNames sc t
  restoresLeaf sc lastActive t.to &&
    clearWay sc scope ((segs PATH_SEP (effectiveTo sc t.to)).drop scope.length)

/-- The ways from the node above both to a join's parallel and to its target are clear, with this
memory. -/
def Transition.joinIsClear (sc : Statechart) (lastActive : LastActive) (t : Transition) : Bool :=
  let source := segs PATH_SEP t.from
  let target := segs PATH_SEP (effectiveTo sc t.to)
  let common := commonPrefix source target
  restoresLeaf sc lastActive t.to && (clearWay sc common (source.drop common.length) &&
    clearWay sc common (target.drop common.length))

/-- A target's way from the start of the exit is clear, and so is the way of the parallel that a
join exits. -/
def Transition.staysLegal (sc : Statechart) (t : Transition) : Bool :=
  let source := segs PATH_SEP t.from
  let target := segs PATH_SEP (effectiveTo sc t.to)
  let common := commonPrefix source target
  let scope := scopeNames sc t
  restores sc t.to &&
    match t.on with
    | some _ => clearWay sc scope (target.drop scope.length)
    | none => clearWay sc common (source.drop common.length) &&
        clearWay sc common (target.drop common.length)

theorem exists_of_effectiveTo (tidy : sc.isTidy = true) {target : String} {node : StateNode}
    (resolves : resolveNode sc target = some node) :
    ∃ node', resolveNode sc (effectiveTo sc target) = some node' := by
  rw [effectiveTo, resolves]
  cases node with
  | history depth default =>
      obtain ⟨initial, states, parent, -⟩ := exists_of_history tidy resolves
      exact ⟨_, parent⟩
  | leaf | «final» | compound | parallel => exact ⟨_, resolves⟩

/-- What enters a child of a compound enters the compound. -/
theorem legal_of_child (tidy : sc.isTidy = true) {path name : String} {initial : String}
    {states : List (String × StateNode)} {leaves : List String}
    (resolves : resolveNode sc path = some (.compound initial states))
    (known : name ∈ states.map Prod.fst)
    (legal : Legal sc.tree (segs PATH_SEP (joinPath [path, name])) (leafPaths leaves)) :
    Legal sc.tree (segs PATH_SEP path) (leafPaths leaves) := by
  rw [segs_child tidy resolves known] at legal
  exact .choice (kind_of_descend resolves) ((child_iff resolves).mpr known) legal

section

variable {c leaf : String} {initial : String} {states : List (String × StateNode)}
  {node : StateNode} {rest : List String}

/-- The child of a compound on the way to an atomic node can be entered. -/
theorem child_on_way (parent : resolveNode sc c = some (.compound initial states))
    (reached : resolveNode sc leaf = some node) (atomic : node.isAtomic = true) {name : String}
    (names : segs PATH_SEP leaf = segs PATH_SEP c ++ name :: rest) :
    ∃ child, states.lookup name = some child ∧ child.isHistory = false := by
  unfold resolveNode at reached
  rw [names, List.append_cons] at reached
  obtain ⟨child, step⟩ := exists_of_descend_append (by simp) reached
  have known := step
  rw [descend_step (segs_ne_nil c) parent] at known
  refine ⟨child, known, ?_⟩
  cases child with
  | leaf | «final» | compound | parallel => rfl
  | history depth default =>
      cases rest with
      | nil =>
          rw [List.append_nil, step] at reached
          cases reached
          cases atomic
      | cons second rest =>
          rw [descend_append (by simp) (List.cons_ne_nil _ _), step] at reached
          cases rest <;> cases reached

/-- A shallow history enters the remembered child. -/
theorem legal_of_shallow (tidy : sc.isTidy = true)
    (parent : resolveNode sc c = some (.compound initial states))
    (reached : resolveNode sc leaf = some node) (atomic : node.isAtomic = true)
    (further : rest ≠ []) (names : segs PATH_SEP leaf = segs PATH_SEP c ++ rest) :
    ∃ leaves, enterLeaves sc (joinSegs PATH_SEP
        ((segs PATH_SEP leaf).take ((segs PATH_SEP c).length + 1))) = some leaves ∧
      Legal sc.tree (segs PATH_SEP c) (leafPaths leaves) := by
  obtain ⟨name, rest, rfl⟩ := List.exists_cons_of_ne_nil further
  obtain ⟨child, known, state⟩ := child_on_way parent reached atomic names
  have first : (segs PATH_SEP leaf).take ((segs PATH_SEP c).length + 1) =
      segs PATH_SEP c ++ [name] := by
    rw [names, List.append_cons]
    exact List.take_left' (by rw [List.length_append, List.length_singleton])
  have path : joinSegs PATH_SEP (segs PATH_SEP c ++ [name]) = joinPath [c, name] := by
    obtain ⟨names, -⟩ := resolveNode_child tidy parent known
    rw [← names, joinSegs_segs]
  obtain ⟨leaves, done, legal⟩ :=
    enterLeaves_legal tidy (resolveNode_child tidy parent known).2 state
  rw [first, path]
  exact ⟨leaves, done, legal_of_child tidy parent (isSome_lookup_iff.mp (known ▸ rfl)) legal⟩

/-- A deep history enters the remembered leaf. -/
theorem legal_of_deep (clear : clearWay sc (segs PATH_SEP c) rest = true)
    (reached : resolveNode sc leaf = some node) (atomic : node.isAtomic = true)
    (names : segs PATH_SEP leaf = segs PATH_SEP c ++ rest) :
    Legal sc.tree (segs PATH_SEP c) (leafPaths [leaf]) := by
  have alone : Legal sc.tree (segs PATH_SEP leaf) (leafPaths [leaf]) := by
    rw [leafPaths_singleton]
    exact .atomic ((kind_of_descend reached).trans (kind_eq_atomic.mpr atomic))
  unfold resolveNode at reached
  rw [names] at alone reached
  exact alone.ascend ((clearWay_iff reached).mp clear)

end

/-- Below a compound without forks every leaf can be brought back. -/
theorem restoresLeaf_of_restores (tidy : sc.isTidy = true) {lastActive : LastActive}
    (memory : Remembers sc lastActive) {target : String} (single : restores sc target = true) :
    restoresLeaf sc lastActive target = true := by
  rw [restores, Bool.or_eq_true] at single
  rw [restoresLeaf, Bool.or_eq_true]
  refine or_iff_not_imp_left.mpr fun deep => (Option.all_eq_true _ _).mpr fun leaf found => ?_
  obtain ⟨node, resolves, history⟩ :=
    (Option.any_eq_true _ _).mp ((Bool.not_eq_false _).mp fun no => deep (by rw [no]; rfl))
  cases node with
  | leaf | «final» | compound | parallel => cases history
  | history depth default =>
      obtain ⟨initial, states, parent, -⟩ := exists_of_history tidy resolves
      have forkless := single.resolve_left deep
      rw [parent] at forkless
      obtain ⟨⟨last, reached, -⟩, rest, -, names⟩ := memory _ _ found
      unfold resolveNode at parent reached
      rw [names] at reached ⊢
      rw [List.drop_left]
      exact clearWay_of_forkless parent forkless reached

/-- Every target is entered, in a set of leaves that is legal at the node that its exit regards. -/
theorem enterTarget_legal (tidy : sc.isTidy = true) {lastActive : LastActive}
    (memory : Remembers sc lastActive) {target : String} {node : StateNode}
    (resolves : resolveNode sc target = some node)
    (single : restoresLeaf sc lastActive target = true) :
    ∃ entered, enterTarget sc target lastActive = some entered ∧
      Legal sc.tree (segs PATH_SEP (effectiveTo sc target)) (leafPaths entered) := by
  cases node with
  | leaf | «final» | compound | parallel =>
      rw [enterTarget, effectiveTo, resolves]
      exact enterLeaves_legal tidy resolves rfl
  | history depth default =>
      obtain ⟨initial, states, parent, enters, proper⟩ := exists_of_history tidy resolves
      have composite : effectiveTo sc target = parentOf target := by
        rw [effectiveTo, resolves]
        rfl
      rw [enterTarget, resolves, composite]
      dsimp only
      cases found : lastActive (parentOf target) with
      | none =>
          dsimp only
          rw [if_neg proper]
          cases default with
          | none => exact enterLeaves_legal tidy parent rfl
          | some name =>
              obtain ⟨child, known, state⟩ := (Option.any_eq_true _ _).mp (enters name rfl)
              obtain ⟨leaves, done, legal⟩ := enterLeaves_legal tidy
                (resolveNode_child tidy parent known).2 ((Bool.not_eq_true' _).mp state)
              exact ⟨leaves, done, legal_of_child tidy parent
                (isSome_lookup_iff.mp (known ▸ rfl)) legal⟩
      | some remembered =>
          obtain ⟨⟨node, reached, atomic⟩, rest, further, names⟩ := memory _ _ found
          cases depth with
          | shallow => exact legal_of_shallow tidy parent reached atomic further names
          | deep =>
              rw [restoresLeaf, resolves, found, Bool.or_eq_true] at single
              have clear := single.resolve_left (by intro shallow; cases shallow)
              rw [Option.all_some, names, List.drop_left] at clear
              exact ⟨[remembered], rfl, legal_of_deep clear reached atomic names⟩

/-! ## Steps and joins -/

theorem declared_of_valid (valid : validateStatechart sc = some []) (tidy : sc.isTidy = true)
    {t : Transition} (mem : t ∈ sc.transitions) : ∃ node, resolveNode sc t.to = some node := by
  obtain ⟨joins, _, errors⟩ := Option.map_eq_some_iff.mp valid
  have clean := (List.append_eq_nil_iff.mp (List.append_eq_nil_iff.mp errors).1).2
  obtain ⟨i, none⟩ := transitionErrors_eq_nil clean mem
  have declared := (List.append_eq_nil_iff.mp (List.append_eq_nil_iff.mp none).1).2
  by_contra unresolved
  rw [if_neg fun known => unresolved (resolves_of_mem_allPaths tidy known)] at declared
  cases declared

section

variable {config : Configuration} {event : String} {evalWhen : EvalWhen} {lastActive : LastActive}
  {t : Transition} {i : Nat}

/-- The start of an enabled transition's exit is active. -/
theorem active_scope (legal : Legal sc.tree [] (leafPaths config)) (tidy : sc.isTidy = true)
    (fires : enabled config event evalWhen t = true) :
    Active (leafPaths config) (scopeNames sc t) := by
  unfold scopeNames
  split
  · obtain ⟨path, mem⟩ := legal.nonempty (tree_sound tidy)
    exact ⟨path, mem, List.nil_prefix⟩
  · rename_i named
    obtain ⟨-, source, -⟩ := of_decide_eq_true fires
    obtain ⟨path, mem, below⟩ := active_iff.mp (source.resolve_left named)
    exact ⟨path, mem, ( commonPrefix_prefix _ _).trans below⟩

theorem scopeNames_initial (t : Transition) :
    scopeNames sc t <+: segs PATH_SEP (effectiveTo sc t.to) := by
  unfold scopeNames
  split
  · exact List.nil_prefix
  · exact commonPrefix_right _ _

/-- The names of a target's path, from some node above it on. -/
theorem target_names {scope : List String} {target : String}
    (above : scope <+: segs PATH_SEP target) :
    scope ++ (segs PATH_SEP target).drop scope.length = segs PATH_SEP target := by
  obtain ⟨rest, whole⟩ := above
  rw [← whole, List.drop_left]

theorem target_plain (tidy : sc.isTidy = true) {scope : List String} {target : String}
    {node : StateNode} (resolves : resolveNode sc target = some node)
    (above : scope <+: segs PATH_SEP target) : ∀ name ∈ scope, isPlainName name = true :=
  fun name mem =>
    (descend_tidy ((Bool.and_eq_true _ _).mp tidy).2 resolves).1 name (above.subset mem)

/-- The enabled transition of a step: what it enters is legal at its target, and replaces what was
active from the start of the exit on. -/
theorem step_cases (tidy : sc.isTidy = true) (memory : Remembers sc lastActive)
    (first : firstTransition (enabled config event evalWhen) sc.transitions = some (t, i))
    {node : StateNode} (resolves : resolveNode sc t.to = some node)
    (single : restoresLeaf sc lastActive t.to = true) :
    ∃ r entered, step sc config event evalWhen lastActive = some r ∧ r.via = some i ∧
      Legal sc.tree (segs PATH_SEP (effectiveTo sc t.to)) entered ∧
      leafPaths r.next = outside (leafPaths config) (scopeNames sc t) ∪ entered ∧
      r.lastActive =
        recordExits sc config (descendantsOf config (exitScope sc t)) lastActive := by
  obtain ⟨entered, done, legal⟩ := enterTarget_legal tidy memory resolves single
  obtain ⟨node', resolves'⟩ := exists_of_effectiveTo tidy resolves
  rw [step, first]
  dsimp only
  rw [done]
  refine ⟨_, leafPaths entered, rfl, rfl, legal, ?_, rfl⟩
  dsimp only
  rw [exitScope_eq]
  exact leafPaths_exitAndEnter (target_plain tidy resolves' (scopeNames_initial t))

theorem step_legal (valid : validateStatechart sc = some []) (tidy : sc.isTidy = true)
    (legal : Legal sc.tree [] (leafPaths config)) (memory : Remembers sc lastActive)
    (clear : (firstTransition (enabled config event evalWhen) sc.transitions).all
      (fun taken => taken.1.stepIsClear sc lastActive) = true) :
    ∃ r, step sc config event evalWhen lastActive = some r ∧
      Legal sc.tree [] (leafPaths r.next) ∧ Remembers sc r.lastActive := by
  cases first : firstTransition (enabled config event evalWhen) sc.transitions with
  | none => exact ⟨_, by rw [step, first], legal, memory⟩
  | some taken =>
      obtain ⟨t, i⟩ := taken
      obtain ⟨fires, found⟩ := firstTransition_some first
      have mem := List.mem_of_getElem? found
      obtain ⟨node, resolves⟩ := declared_of_valid valid tidy mem
      rw [first] at clear
      obtain ⟨single, clear⟩ := (Bool.and_eq_true _ _).mp clear
      obtain ⟨r, entered, done, -, fits, next, recorded⟩ :=
        step_cases tidy memory first resolves single
      refine ⟨r, done, ?_, recorded ▸ memory.recordExits legal _⟩
      obtain ⟨node', resolves'⟩ := exists_of_effectiveTo tidy resolves
      have names := target_names (@scopeNames_initial sc t)
      unfold resolveNode at resolves'
      rw [← names] at fits resolves'
      rw [next]
      exact legal.replace (active_scope legal tidy fires)
        (fits.ascend ((clearWay_iff resolves').mp clear))

/-- What is active is reached. -/
theorem exists_of_active (legal : Legal sc.tree [] (leafPaths config)) {path : String}
    (active : Active (leafPaths config) (segs PATH_SEP path)) :
    ∃ node, resolveNode sc path = some node := by
  obtain ⟨leaf, found, rest, rfl⟩ := active
  obtain ⟨last, reached, -⟩ := exists_of_kind
    (List.append_ne_nil_of_left_ne_nil (segs_ne_nil path) rest) (legal.kind_eq found)
  exact exists_of_descend_append (segs_ne_nil path) reached

theorem fireJoin_legal (valid : validateStatechart sc = some []) (tidy : sc.isTidy = true)
    (legal : Legal sc.tree [] (leafPaths config)) (memory : Remembers sc lastActive) {p : String}
    (next : nextJoin sc evalWhen config = some (p, t))
    (clear : t.joinIsClear sc (recordExits sc config (descendantsOf config p) lastActive) = true) :
    ∃ config' recorded, fireJoin sc config lastActive p t = some (config', recorded) ∧
      Legal sc.tree [] (leafPaths config') ∧ Remembers sc recorded := by
  obtain ⟨-, active, -, edge⟩ := nextJoin_eq_some next
  obtain ⟨mem, rfl, -⟩ := joinEdge_eq_some edge
  obtain ⟨node, resolves⟩ := declared_of_valid valid tidy mem
  obtain ⟨single, clear⟩ := (Bool.and_eq_true _ _).mp clear
  rw [Bool.and_eq_true] at clear
  have memory' := memory.recordExits legal (descendantsOf config t.from)
  obtain ⟨entered, done, fits⟩ := enterTarget_legal tidy memory' resolves single
  refine ⟨_, _, by rw [fireJoin, done]; rfl, ?_, memory'⟩
  obtain ⟨node', resolves'⟩ := exists_of_effectiveTo tidy resolves
  have left := commonPrefix_prefix (segs PATH_SEP t.from) (segs PATH_SEP (effectiveTo sc t.to))
  have right :=
    commonPrefix_right (segs PATH_SEP t.from) (segs PATH_SEP (effectiveTo sc t.to))
  generalize commonPrefix _ _ = common at left right clear
  have source := target_names left
  have target := target_names right
  obtain ⟨above, reached⟩ := exists_of_active legal (active_iff.mp active)
  have plain := (descend_tidy ((Bool.and_eq_true _ _).mp tidy).2 reached).1
  -- from the common path on nothing is active but the parallel
  have exits : outside (leafPaths config) (segs PATH_SEP t.from) =
      outside (leafPaths config) common := by
    have active := active_iff.mp active
    unfold resolveNode at reached
    rw [← source] at active reached ⊢
    exact legal.outside_way ((clearWay_iff reached).mp clear.1) active
  have after := @leafPaths_exitAndEnter config entered _ plain
  rw [joinSegs_segs] at after
  rw [after, exits]
  unfold resolveNode at resolves'
  rw [← target] at fits resolves'
  obtain ⟨path, mem, below⟩ := active_iff.mp active
  exact legal.replace ⟨path, mem, left.trans below⟩
    (fits.ascend ((clearWay_iff resolves').mp clear.2))

end

/-! ## Runs -/

/-- A call of the engine: an event, or a macrostep. -/
inductive Turn
  | step (event : String) (evalWhen : EvalWhen)
  | settle (evalWhen : EvalWhen)

def Turn.run (sc : Statechart) (s : Configuration × LastActive) :
    Turn → Option (Configuration × LastActive)
  | .step event evalWhen =>
      (Machine.step sc s.1 event evalWhen s.2).map fun r => (r.next, r.lastActive)
  | .settle evalWhen => Machine.settle sc s.1 evalWhen s.2

/-- Turns from the initial configuration on, with the memory threaded through. -/
def runTurns (sc : Statechart) (turns : List Turn) : Option (Configuration × LastActive) :=
  (initialConfig sc).bind fun config => turns.foldlM (Turn.run sc) (config, fun _ => none)

/-- A legal configuration, with a memory of leaves. -/
def LegalState (sc : Statechart) (s : Configuration × LastActive) : Prop :=
  Legal sc.tree [] (leafPaths s.1) ∧ Remembers sc s.2

/-- Every join that is fired is clear, up to a number of them. -/
def joinsAreClear (sc : Statechart) (evalWhen : EvalWhen) :
    Nat → Configuration → LastActive → Bool
  | 0, _, _ => true
  | fuel + 1, config, lastActive =>
      (nextJoin sc evalWhen config).all fun (p, t) =>
        t.joinIsClear sc (recordExits sc config (descendantsOf config p) lastActive) &&
          (fireJoin sc config lastActive p t).all fun (next, recorded) =>
            joinsAreClear sc evalWhen fuel next recorded

/-- Every transition that the turn takes is clear. -/
def Turn.isClear (sc : Statechart) (s : Configuration × LastActive) : Turn → Bool
  | .step event evalWhen =>
      (firstTransition (enabled s.1 event evalWhen) sc.transitions).all fun taken =>
        taken.1.stepIsClear sc s.2
  | .settle evalWhen => joinsAreClear sc evalWhen 10000 s.1 s.2

theorem settleWithin_legal (valid : validateStatechart sc = some []) (tidy : sc.isTidy = true)
    (evalWhen : EvalWhen) {fuel : Nat} {s : Configuration × LastActive} (legal : LegalState sc s)
    (clear : joinsAreClear sc evalWhen fuel s.1 s.2 = true) :
    ∃ s', settleWithin sc evalWhen fuel s.1 s.2 = some s' ∧ LegalState sc s' := by
  induction fuel generalizing s with
  | zero => exact ⟨s, rfl, legal⟩
  | succ fuel ih =>
      rw [joinsAreClear] at clear
      rw [settleWithin]
      cases next : nextJoin sc evalWhen s.1 with
      | none => exact ⟨s, rfl, legal⟩
      | some join =>
          obtain ⟨p, t⟩ := join
          rw [next, Option.all_some, Bool.and_eq_true] at clear
          obtain ⟨config, recorded, fire, after⟩ :=
            fireJoin_legal valid tidy legal.1 legal.2 next clear.1
          have later := clear.2
          rw [fire] at later
          obtain ⟨s', done, legal⟩ := @ih (config, recorded) after later
          refine ⟨s', ?_, legal⟩
          dsimp only
          rw [fire]
          exact done

/-- A turn whose transitions are clear goes through, and leads to a legal configuration. -/
theorem turn_legal (valid : validateStatechart sc = some []) (tidy : sc.isTidy = true)
    {s : Configuration × LastActive} (legal : LegalState sc s) {turn : Turn}
    (clear : turn.isClear sc s = true) : ∃ s', turn.run sc s = some s' ∧ LegalState sc s' := by
  cases turn with
  | step event evalWhen =>
      obtain ⟨r, done, after⟩ := step_legal valid tidy legal.1 legal.2 clear
      exact ⟨(r.next, r.lastActive), by rw [Turn.run, done]; rfl, after⟩
  | settle evalWhen => exact settleWithin_legal valid tidy evalWhen legal clear

section

variable {lastActive : LastActive} {t : Transition}

theorem stepIsClear_of_staysLegal (tidy : sc.isTidy = true) (memory : Remembers sc lastActive)
    {event : String} (on : t.on = some event) (stays : t.staysLegal sc = true) :
    t.stepIsClear sc lastActive = true := by
  rw [Transition.staysLegal, on, Bool.and_eq_true] at stays
  exact (Bool.and_eq_true _ _).mpr ⟨restoresLeaf_of_restores tidy memory stays.1, stays.2⟩

theorem joinIsClear_of_staysLegal (tidy : sc.isTidy = true) (memory : Remembers sc lastActive)
    (eventless : t.on = none) (stays : t.staysLegal sc = true) :
    t.joinIsClear sc lastActive = true := by
  rw [Transition.staysLegal, eventless, Bool.and_eq_true] at stays
  exact (Bool.and_eq_true _ _).mpr ⟨restoresLeaf_of_restores tidy memory stays.1, stays.2⟩

end

theorem joinsAreClear_of_staysLegal (valid : validateStatechart sc = some [])
    (tidy : sc.isTidy = true) (stays : ∀ t ∈ sc.transitions, t.staysLegal sc = true)
    (evalWhen : EvalWhen) (fuel : Nat) {s : Configuration × LastActive} (legal : LegalState sc s) :
    joinsAreClear sc evalWhen fuel s.1 s.2 = true := by
  induction fuel generalizing s with
  | zero => rfl
  | succ fuel ih =>
      rw [joinsAreClear]
      refine (Option.all_eq_true _ _).mpr fun join next => ?_
      obtain ⟨p, t⟩ := join
      obtain ⟨-, -, -, edge⟩ := nextJoin_eq_some next
      obtain ⟨mem, -, eventless⟩ := joinEdge_eq_some edge
      have clear := joinIsClear_of_staysLegal tidy
        (legal.2.recordExits legal.1 (descendantsOf s.1 p)) eventless (stays t mem)
      obtain ⟨config, recorded, fire, after⟩ :=
        fireJoin_legal valid tidy legal.1 legal.2 next clear
      rw [Bool.and_eq_true, fire]
      exact ⟨clear, @ih (config, recorded) after⟩

/-- In a chart whose transitions stay legal every turn is clear. -/
theorem isClear_of_staysLegal (valid : validateStatechart sc = some []) (tidy : sc.isTidy = true)
    (stays : ∀ t ∈ sc.transitions, t.staysLegal sc = true) {s : Configuration × LastActive}
    (legal : LegalState sc s) (turn : Turn) : turn.isClear sc s = true := by
  cases turn with
  | settle evalWhen => exact joinsAreClear_of_staysLegal valid tidy stays evalWhen _ legal
  | step event evalWhen =>
      refine (Option.all_eq_true _ _).mpr fun taken first => ?_
      obtain ⟨t, i⟩ := taken
      obtain ⟨fires, found⟩ := firstTransition_some first
      exact stepIsClear_of_staysLegal tidy legal.2 (of_decide_eq_true fires).1
        (stays t (List.mem_of_getElem? found))

theorem initialConfig_legal (tidy : sc.isTidy = true) :
    ∃ config, initialConfig sc = some config ∧ Legal sc.tree [] (leafPaths config) := by
  obtain ⟨node, known, state⟩ :=
    (Option.any_eq_true _ _).mp ((Bool.and_eq_true _ _).mp ((Bool.and_eq_true _ _).mp tidy).1).1
  have declared : sc.initial ∈ sc.root.map Prod.fst :=
    isSome_lookup_iff.mp (by rw [known]; rfl)
  have names := plain_of_root tidy declared
  have resolves : resolveNode sc sc.initial = some node := by
    rw [resolveNode, names]
    exact known
  obtain ⟨leaves, done, legal⟩ :=
    enterLeaves_legal tidy resolves ((Bool.not_eq_true' _).mp state)
  refine ⟨_, by rw [initialConfig, done]; rfl, ?_⟩
  have same : leafPaths (Configuration.addAll [] leaves) = leafPaths leaves := by
    ext path
    refine exists_congr fun leaf => and_congr_left fun _ => ?_
    rw [Configuration.mem_addAll]
    exact or_iff_right List.not_mem_nil
  rw [same]
  rw [names] at legal
  exact .choice rfl (root_child_iff.mpr declared) legal

/-- No run of a tidy chart whose transitions stay legal throws, or reaches a configuration that is
not legal. -/
theorem run_legal (valid : validateStatechart sc = some []) (tidy : sc.isTidy = true)
    (stays : ∀ t ∈ sc.transitions, t.staysLegal sc = true) (turns : List Turn) :
    ∃ config lastActive, runTurns sc turns = some (config, lastActive) ∧
      LegalConfiguration sc config := by
  obtain ⟨config, initial, legal⟩ := initialConfig_legal tidy
  have through : ∀ s, LegalState sc s → ∃ s', turns.foldlM (Turn.run sc) s = some s' ∧
      LegalState sc s' := by
    induction turns with
    | nil => exact fun s legal => ⟨s, rfl, legal⟩
    | cons turn turns ih =>
        intro s legal
        obtain ⟨t, run, legal⟩ :=
          turn_legal valid tidy legal (isClear_of_staysLegal valid tidy stays legal turn)
        obtain ⟨s', done, legal⟩ := ih t legal
        exact ⟨s', by rw [List.foldlM_cons, run]; exact done, legal⟩
  obtain ⟨⟨config', lastActive⟩, done, legal'⟩ := through (config, fun _ => none) ⟨legal, nofun⟩
  refine ⟨config', lastActive, ?_, (legalConfiguration_iff tidy).mpr legal'.1⟩
  rw [runTurns, initial]
  exact done

/-! ## A chart -/

/-- A review in two regions, and two compounds that are come back to. -/
def studio : Statechart where
  initial := "work"
  root :=
    [("idle", .leaf),
      ("work", .compound "draft"
        [("draft", .leaf),
          ("review", .parallel
            [("code", .compound "open" [("open", .leaf), ("done", .final)]),
              ("docs", .compound "open" [("open", .leaf), ("done", .final)])]),
          ("closed", .leaf), ("past", .history .shallow none)]),
      ("tune", .compound "low"
        [("low", .leaf), ("high", .leaf), ("last", .history .deep (some "high"))])]
  transitions :=
    [{ «from» := "work/draft", on := some "submit", «to» := "work/review" },
      { «from» := "work/review/code/open", on := some "code", «to» := "work/review/code/done" },
      { «from» := "work/review/docs/open", on := some "docs", «to» := "work/review/docs/done" },
      { «from» := "work/review", «to» := "work/closed" },
      { «from» := "work", on := some "pause", «to» := "tune/last" },
      { «from» := "tune", on := some "pause", «to» := "work/past" },
      { «from» := "*", on := some "reset", «to» := "idle" }]

theorem run_legal_studio : validateStatechart studio = some [] ∧ studio.isTidy = true ∧
    (∀ t ∈ studio.transitions, t.staysLegal studio = true) ∧
    ∃ config lastActive, runTurns studio
        [.step "submit" none, .step "code" none, .step "pause" none, .step "pause" none,
          .step "docs" none, .settle none] = some (config, lastActive) ∧
      LegalConfiguration studio config := by
  have valid : validateStatechart studio = some [] := by decide +kernel
  have tidy : studio.isTidy = true := by decide +kernel
  have stays : ∀ t ∈ studio.transitions, t.staysLegal studio = true := by decide +kernel
  exact ⟨valid, tidy, stays, run_legal valid tidy stays _⟩

/-- From one region to another of the same parallel: only the target is left. -/
def crossing : Statechart where
  initial := "review"
  root := [("review", .parallel [("code", .leaf), ("docs", .leaf)])]
  transitions := [{ «from» := "review/code", on := some "hop", «to» := "review/docs" }]

end Opensquid.Machine
