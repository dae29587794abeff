import Mathlib.Data.List.Infix
import Mathlib.Data.Set.Insert
import Mathlib.Logic.Function.Basic

/-!
# Legal sets of paths

A tree whose nodes are addressed by the names on the way to them. A node is atomic, the choice of
one of its children, or all of its children at once. `Legal` is the set of atomic nodes that are
active together at or below a node.

* `Legal.restrict` and `Legal.replace`: what is active at or below an active node is legal there,
  and may be exchanged for anything that is legal there.
* `Way`: the way down to a node branches nowhere, so that what is legal at its end is legal at its
  start (`Legal.ascend`), and nothing else is active beside it (`Legal.below_way`). No other way
  has this property (`Legal.way_of_below`).
* `legal_iff`: a set is legal if its members are atomic, every active choice has one active child
  and everything else that is active has all its children active.
-/

namespace Opensquid.Lib.LegalPaths

variable {ν : Type*}

inductive Kind
  | atomic
  | choice
  | all

structure PathTree (ν : Type*) where
  kind : List ν → Option Kind
  child : List ν → ν → Prop

/-- The sets of atomic nodes that are active together at or below a node. -/
inductive Legal (tree : PathTree ν) : List ν → Set (List ν) → Prop
  | atomic {here : List ν} : tree.kind here = some .atomic → Legal tree here {here}
  | choice {here : List ν} {name : ν} {paths : Set (List ν)} :
    tree.kind here = some .choice → tree.child here name → Legal tree (here ++ [name]) paths →
    Legal tree here paths
  | all {here : List ν} {paths : ν → Set (List ν)} :
    tree.kind here = some .all →
    (∀ name, tree.child here name → Legal tree (here ++ [name]) (paths name)) →
    Legal tree here {path | ∃ name, tree.child here name ∧ path ∈ paths name}

/-- The node or one below it is among the paths. -/
def Active (paths : Set (List ν)) (here : List ν) : Prop := ∃ path ∈ paths, here <+: path

/-- The paths at or below a node. -/
def under (paths : Set (List ν)) (here : List ν) : Set (List ν) := {path ∈ paths | here <+: path}

/-- The paths that are not at or below a node. -/
def outside (paths : Set (List ν)) (here : List ν) : Set (List ν) :=
  {path ∈ paths | ¬ here <+: path}

/-- At this node nothing but the child of this name can be active. -/
def Single (tree : PathTree ν) (here : List ν) (name : ν) : Prop :=
  tree.child here name ∧ (tree.kind here = some .choice ∨
    tree.kind here = some .all ∧ ∀ other, tree.child here other → other = name)

/-- The way down by the names branches nowhere. -/
def Way (tree : PathTree ν) : List ν → List ν → Prop
  | _, [] => True
  | here, name :: rest => Single tree here name ∧ Way tree (here ++ [name]) rest

variable {tree : PathTree ν} {here scope : List ν} {paths : Set (List ν)}

/-! ## Names on the way -/

theorem eq_of_below {here path : List ν} {a b : ν} (left : here ++ [a] <+: path)
    (right : here ++ [b] <+: path) : a = b := by
  obtain ⟨after, rfl⟩ := left
  obtain ⟨after', same⟩ := right
  rw [List.append_assoc, List.append_assoc, List.append_cancel_left_eq] at same
  exact (List.cons.inj same).1.symm

/-- Two names after the same node, on the way to one path. -/
theorem name_eq {here rest path : List ν} {a b : ν} (left : here ++ [a] <+: path)
    (right : here ++ b :: rest <+: path) : a = b := by
  rw [List.append_cons here b rest] at right
  exact eq_of_below left ((List.prefix_append _ rest).trans right)

theorem above_of_step {here path : List ν} {name : ν} (below : here ++ [name] <+: path) :
    here <+: path := (List.prefix_append here [name]).trans below

/-! ## What is active -/

theorem Legal.starts (legal : Legal tree here paths) {path : List ν} (mem : path ∈ paths) :
    here <+: path := by
  induction legal with
  | atomic _ =>
      rw [Set.mem_singleton_iff] at mem
      rw [mem]
  | choice _ _ _ ih => exact above_of_step (ih mem)
  | all _ _ ih =>
      obtain ⟨name, child, mem⟩ := mem
      exact above_of_step (ih name child mem)

theorem Legal.under_eq (legal : Legal tree here paths) : under paths here = paths :=
  Set.sep_eq_self_iff_mem_true.mpr fun _ mem => legal.starts mem

theorem Legal.outside_eq (legal : Legal tree here paths) : outside paths here = ∅ :=
  Set.eq_empty_of_forall_notMem fun _ both => both.2 (legal.starts both.1)

/-- Below a node where everything else is of another name, only one child matters. -/
theorem under_all {paths : ν → Set (List ν)} {rest : List ν} {name : ν}
    (child : tree.child here name)
    (legal : ∀ other, tree.child here other → Legal tree (here ++ [other]) (paths other)) :
    under {path | ∃ other, tree.child here other ∧ path ∈ paths other} (here ++ name :: rest) =
      under (paths name) (here ++ name :: rest) := by
  ext path
  constructor
  · rintro ⟨⟨other, known, mem⟩, below⟩
    have same : other = name := name_eq ((legal other known).starts mem) below
    exact ⟨same ▸ mem, below⟩
  · rintro ⟨mem, below⟩
    exact ⟨⟨name, child, mem⟩, below⟩

/-- The child of an `all` node on the way to an active node. -/
theorem child_of_active {paths : ν → Set (List ν)} {rest : List ν} {name : ν}
    (legal : ∀ other, tree.child here other → Legal tree (here ++ [other]) (paths other))
    (active : Active {path | ∃ other, tree.child here other ∧ path ∈ paths other}
      (here ++ name :: rest)) :
    tree.child here name ∧ Active (paths name) (here ++ name :: rest) := by
  obtain ⟨path, ⟨other, known, mem⟩, below⟩ := active
  have same : other = name := name_eq ((legal other known).starts mem) below
  subst same
  exact ⟨known, path, mem, below⟩

theorem not_below_self {here rest : List ν} {name : ν} : ¬ here ++ name :: rest <+: here := by
  intro below
  have := below.length_le
  rw [List.length_append, List.length_cons] at this
  omega

/-- What is active at or below an active node is legal there. -/
theorem Legal.restrict (legal : Legal tree here paths) {rest : List ν}
    (active : Active paths (here ++ rest)) :
    Legal tree (here ++ rest) (under paths (here ++ rest)) := by
  induction legal generalizing rest with
  | @atomic here atomic =>
      cases rest with
      | nil =>
          have legal := Legal.atomic atomic
          rwa [List.append_nil, legal.under_eq]
      | cons name rest =>
          obtain ⟨path, rfl, below⟩ := active
          exact absurd below not_below_self
  | @choice here next paths choice child inner ih =>
      cases rest with
      | nil =>
          have legal := Legal.choice choice child inner
          rwa [List.append_nil, legal.under_eq]
      | cons name rest =>
          obtain ⟨path, mem, below⟩ := active
          have same : next = name := name_eq (inner.starts mem) below
          subst same
          rw [List.append_cons here next rest] at below ⊢
          exact ih ⟨path, mem, below⟩
  | @all here paths all inner ih =>
      cases rest with
      | nil =>
          have legal := Legal.all all inner
          rwa [List.append_nil, legal.under_eq]
      | cons name rest =>
          obtain ⟨child, active⟩ := child_of_active inner active
          rw [under_all child inner]
          rw [List.append_cons here name rest] at active ⊢
          exact ih name child active

/-- The other children of an `all` node stay as they are. -/
theorem exchange_all [DecidableEq ν] {paths : ν → Set (List ν)} {rest : List ν} {name : ν}
    {entered : Set (List ν)} (child : tree.child here name)
    (legal : ∀ other, tree.child here other → Legal tree (here ++ [other]) (paths other)) :
    outside {path | ∃ other, tree.child here other ∧ path ∈ paths other} (here ++ name :: rest) ∪
        entered =
      {path | ∃ other, tree.child here other ∧ path ∈ Function.update paths name
        (outside (paths name) (here ++ name :: rest) ∪ entered) other} := by
  ext path
  constructor
  · rintro (⟨⟨other, known, mem⟩, apart⟩ | mem)
    · refine ⟨other, known, ?_⟩
      by_cases same : other = name
      · subst same
        rw [Function.update_self]
        exact .inl ⟨mem, apart⟩
      · rwa [Function.update_of_ne same]
    · refine ⟨name, child, ?_⟩
      rw [Function.update_self]
      exact .inr mem
  · rintro ⟨other, known, mem⟩
    by_cases same : other = name
    · subst same
      rw [Function.update_self] at mem
      rcases mem with ⟨mem, apart⟩ | mem
      · exact .inl ⟨⟨other, known, mem⟩, apart⟩
      · exact .inr mem
    · rw [Function.update_of_ne same] at mem
      refine .inl ⟨⟨other, known, mem⟩, fun below => same ?_⟩
      exact name_eq ((legal other known).starts mem) below

/-- What is active at or below an active node may be exchanged. -/
theorem Legal.replace [DecidableEq ν] (legal : Legal tree here paths) {rest : List ν}
    (active : Active paths (here ++ rest)) {entered : Set (List ν)}
    (fits : Legal tree (here ++ rest) entered) :
    Legal tree here (outside paths (here ++ rest) ∪ entered) := by
  induction legal generalizing rest with
  | @atomic here atomic =>
      cases rest with
      | nil =>
          have legal := Legal.atomic atomic
          rw [List.append_nil] at fits ⊢
          rwa [legal.outside_eq, Set.empty_union]
      | cons name rest =>
          obtain ⟨path, rfl, below⟩ := active
          exact absurd below not_below_self
  | @choice here next paths choice child inner ih =>
      cases rest with
      | nil =>
          have legal := Legal.choice choice child inner
          rw [List.append_nil] at fits ⊢
          rwa [legal.outside_eq, Set.empty_union]
      | cons name rest =>
          obtain ⟨path, mem, below⟩ := active
          have same : next = name := name_eq (inner.starts mem) below
          subst same
          rw [List.append_cons here next rest] at below fits ⊢
          exact .choice choice child (ih ⟨path, mem, below⟩ fits)
  | @all here paths all inner ih =>
      cases rest with
      | nil =>
          have legal := Legal.all all inner
          rw [List.append_nil] at fits ⊢
          rwa [legal.outside_eq, Set.empty_union]
      | cons name rest =>
          obtain ⟨child, active⟩ := child_of_active inner active
          have exchanged : Legal tree (here ++ [name])
              (outside (paths name) (here ++ name :: rest) ∪ entered) := by
            have exchanged := ih name child (List.append_cons here name rest ▸ active)
              (List.append_cons here name rest ▸ fits)
            rwa [← List.append_cons here name rest] at exchanged
          rw [exchange_all child inner]
          refine .all all fun other known => ?_
          by_cases same : other = name
          · subst same
            rwa [Function.update_self]
          · rw [Function.update_of_ne same]
            exact inner other known

/-- What replaces the paths below a node is what is then below it. -/
theorem under_replace {entered : Set (List ν)} (below : ∀ path ∈ entered, scope <+: path) :
    under (outside paths scope ∪ entered) scope = entered := by
  ext path
  constructor
  · rintro ⟨stays | mem, inside⟩
    · exact absurd inside stays.2
    · exact mem
  · exact fun mem => ⟨.inr mem, below path mem⟩

/-! ## Ways -/

/-- What is legal at the end of a way is legal at its start. -/
theorem Legal.ascend {rest : List ν} (way : Way tree here rest)
    (legal : Legal tree (here ++ rest) paths) : Legal tree here paths := by
  induction rest generalizing here with
  | nil => rwa [List.append_nil] at legal
  | cons name rest ih =>
      obtain ⟨⟨child, kind⟩, way⟩ := way
      rw [List.append_cons] at legal
      have inner := ih way legal
      rcases kind with choice | ⟨all, single⟩
      · exact .choice choice child inner
      · have whole : Legal tree here {path | ∃ other, tree.child here other ∧ path ∈ paths} :=
          .all all fun other known => by
            rw [single other known]
            exact inner
        convert whole using 1
        ext path
        exact ⟨fun mem => ⟨name, child, mem⟩, fun ⟨_, _, mem⟩ => mem⟩

theorem Legal.descend_single (legal : Legal tree here paths) {name : ν}
    (single : Single tree here name) (active : Active paths (here ++ [name])) :
    Legal tree (here ++ [name]) paths := by
  have same : under paths (here ++ [name]) = paths := by
    refine Set.sep_eq_self_iff_mem_true.mpr fun path mem => ?_
    obtain ⟨other, found, below⟩ := active
    cases legal with
    | atomic atomic =>
        rcases single.2 with choice | ⟨all, -⟩
        · rw [atomic] at choice
          cases choice
        · rw [atomic] at all
          cases all
    | choice _ _ inner =>
        have same := eq_of_below (inner.starts found) below
        subst same
        exact inner.starts mem
    | all all inner =>
        obtain ⟨next, known, mem⟩ := mem
        rcases single.2 with choice | ⟨-, only⟩
        · rw [all] at choice
          cases choice
        · exact only next known ▸ (inner next known).starts mem
  exact same ▸ legal.restrict active

/-- Nothing is active beside a way to an active node. -/
theorem Legal.below_way (legal : Legal tree here paths) {rest : List ν}
    (way : Way tree here rest) (active : Active paths (here ++ rest)) :
    Legal tree (here ++ rest) paths := by
  induction rest generalizing here with
  | nil => rwa [List.append_nil]
  | cons name rest ih =>
      rw [List.append_cons] at active ⊢
      obtain ⟨path, mem, below⟩ := active
      have inner := legal.descend_single way.1 ⟨path, mem, (List.prefix_append _ rest).trans below⟩
      exact ih inner way.2 ⟨path, mem, below⟩

/-- Where a way leads down to an active node, nothing else below its start is active. -/
theorem Legal.outside_way (legal : Legal tree here paths) {names rest : List ν}
    (way : Way tree (here ++ names) rest) (active : Active paths (here ++ names ++ rest)) :
    outside paths (here ++ names ++ rest) = outside paths (here ++ names) := by
  obtain ⟨path, mem, below⟩ := active
  have above := (List.prefix_append (here ++ names) rest).trans below
  have part := legal.restrict ⟨path, mem, above⟩
  have inside := part.below_way way ⟨path, ⟨mem, above⟩, below⟩
  ext other
  refine and_congr_right fun found => not_congr ⟨fun under => ?_, fun under => ?_⟩
  · exact (List.prefix_append _ _).trans under
  · exact inside.starts ⟨found, under⟩

/-! ## Exactness -/

/-- The nodes are those of a tree of finite depth, in which `all` nodes have children. -/
structure PathTree.Sound (tree : PathTree ν) : Prop where
  inner : ∀ {here name}, (tree.kind (here ++ [name])).isSome = true →
    tree.child here name ∧ (tree.kind here = some .choice ∨ tree.kind here = some .all)
  populated : ∀ {here}, tree.kind here = some .all → ∃ name, tree.child here name
  deep : ∃ depth : List ν → Nat, ∀ {here name}, tree.child here name →
    depth (here ++ [name]) < depth here

theorem Legal.nonempty (sound : tree.Sound) (legal : Legal tree here paths) : paths.Nonempty := by
  induction legal with
  | atomic _ => exact Set.singleton_nonempty _
  | choice _ _ _ ih => exact ih
  | all all _ ih =>
      obtain ⟨name, known⟩ := sound.populated all
      obtain ⟨path, mem⟩ := ih name known
      exact ⟨path, name, known, mem⟩

/-- Whatever is legal at a node and lies below another has come there by a way. -/
theorem Legal.way_of_below (sound : tree.Sound) (legal : Legal tree here paths) {rest : List ν}
    (below : ∀ path ∈ paths, here ++ rest <+: path) : Way tree here rest := by
  induction rest generalizing here paths with
  | nil => trivial
  | cons name rest ih =>
      obtain ⟨path, mem⟩ := legal.nonempty sound
      cases legal with
      | atomic _ =>
          rw [Set.mem_singleton_iff] at mem
          exact absurd (mem ▸ below path mem) not_below_self
      | choice choice child inner =>
          have same := name_eq (inner.starts mem) (below path mem)
          subst same
          refine ⟨⟨child, .inl choice⟩, ih inner fun other found => ?_⟩
          rw [← List.append_cons]
          exact below other found
      | all all inner =>
          have same : ∀ other, tree.child here other → other = name := fun other known => by
            obtain ⟨path, mem⟩ := (inner other known).nonempty sound
            exact name_eq ((inner other known).starts mem) (below path ⟨other, known, mem⟩)
          obtain ⟨other, known, -⟩ := mem
          have child := same other known ▸ known
          refine ⟨⟨child, .inr ⟨all, same⟩⟩, ih (inner name child) fun other found => ?_⟩
          rw [← List.append_cons]
          exact below other ⟨name, child, found⟩

/-! ## In words -/

/-- Members are atomic, an active choice has one active child, and everything else that is active
has all its children active. -/
structure Proper (tree : PathTree ν) (here : List ν) (paths : Set (List ν)) : Prop where
  atomic : ∀ path ∈ paths, here <+: path ∧ tree.kind path = some .atomic
  choice : ∀ {node}, here <+: node → tree.kind node = some .choice → Active paths node →
    ∃! name, tree.child node name ∧ Active paths (node ++ [name])
  all : ∀ {node}, here <+: node → tree.kind node = some .all → Active paths node →
    ∀ name, tree.child node name → Active paths (node ++ [name])

theorem Legal.kind_eq (legal : Legal tree here paths) {path : List ν} (mem : path ∈ paths) :
    tree.kind path = some .atomic := by
  induction legal with
  | atomic atomic =>
      rw [Set.mem_singleton_iff] at mem
      rwa [mem]
  | choice _ _ _ ih => exact ih mem
  | all _ _ ih =>
      obtain ⟨name, known, mem⟩ := mem
      exact ih name known mem

theorem Legal.proper (sound : tree.Sound) (legal : Legal tree here paths) :
    Proper tree here paths where
  atomic path mem := ⟨legal.starts mem, legal.kind_eq mem⟩
  choice := by
    intro node above kind active
    obtain ⟨rest, rfl⟩ := above
    have part := legal.restrict active
    generalize below : under paths (here ++ rest) = inside at part
    cases part with
    | atomic atomic => rw [kind] at atomic; cases atomic
    | all all => rw [kind] at all; cases all
    | @choice _ name _ _ child inner =>
        obtain ⟨path, mem⟩ := inner.nonempty sound
        have mem' : path ∈ paths := (below ▸ mem : path ∈ under paths (here ++ rest)).1
        refine ⟨name, ⟨child, path, mem', inner.starts mem⟩, ?_⟩
        rintro other ⟨-, path, mem, apart⟩
        have found : path ∈ inside := below ▸ ⟨mem, above_of_step apart⟩
        exact eq_of_below apart (inner.starts found)
  all := by
    intro node above kind active name known
    obtain ⟨rest, rfl⟩ := above
    have part := legal.restrict active
    generalize below : under paths (here ++ rest) = inside at part
    cases part with
    | atomic atomic => rw [kind] at atomic; cases atomic
    | choice choice => rw [kind] at choice; cases choice
    | all _ inner =>
        obtain ⟨path, mem⟩ := (inner name known).nonempty sound
        have found : path ∈ under paths (here ++ rest) := below ▸ ⟨name, known, mem⟩
        exact ⟨path, found.1, (inner name known).starts mem⟩

theorem PathTree.Sound.kind_above (sound : tree.Sound) {rest : List ν} {name : ν}
    (node : (tree.kind (here ++ name :: rest)).isSome = true) :
    tree.child here name ∧ (tree.kind here = some .choice ∨ tree.kind here = some .all) := by
  induction rest using List.reverseRecOn with
  | nil => exact sound.inner node
  | append_singleton rest last ih =>
      rw [← List.cons_append, ← List.append_assoc] at node
      rcases (sound.inner node).2 with kind | kind <;> exact ih (by rw [kind]; rfl)

theorem active_under {node : List ν} (below : here <+: node) :
    Active (under paths here) node ↔ Active paths node :=
  ⟨fun ⟨path, mem, above⟩ => ⟨path, mem.1, above⟩,
    fun ⟨path, mem, above⟩ => ⟨path, ⟨mem, below.trans above⟩, above⟩⟩

theorem Proper.under (proper : Proper tree here paths) (name : ν) :
    Proper tree (here ++ [name]) (under paths (here ++ [name])) where
  atomic path mem := ⟨mem.2, (proper.atomic path mem.1).2⟩
  choice := by
    intro node below kind active
    obtain ⟨next, ⟨child, found⟩, unique⟩ :=
      proper.choice (above_of_step below) kind ((active_under below).mp active)
    refine ⟨next, ⟨child, (active_under (below.trans (List.prefix_append _ _))).mpr found⟩, ?_⟩
    rintro other ⟨known, found⟩
    exact unique other ⟨known, (active_under (below.trans (List.prefix_append _ _))).mp found⟩
  all := by
    intro node below kind active other known
    exact (active_under (below.trans (List.prefix_append _ _))).mpr
      (proper.all (above_of_step below) kind ((active_under below).mp active) other known)

/-- A member of a proper set is the node itself, or lies below a child of it. -/
theorem Proper.mem_cases (sound : tree.Sound) (proper : Proper tree here paths) {path : List ν}
    (mem : path ∈ paths) :
    path = here ∨ ∃ name, here ++ [name] <+: path ∧ tree.child here name ∧
      (tree.kind here = some .choice ∨ tree.kind here = some .all) := by
  obtain ⟨⟨rest, rfl⟩, atomic⟩ := proper.atomic path mem
  cases rest with
  | nil => exact .inl (List.append_nil here)
  | cons name rest =>
      obtain ⟨child, kind⟩ := sound.kind_above (by rw [atomic]; rfl)
      exact .inr ⟨name, ⟨rest, (List.append_cons here name rest).symm⟩, child, kind⟩

/-- What is legal, in words. -/
theorem legal_iff (sound : tree.Sound) :
    Legal tree here paths ↔ Active paths here ∧ Proper tree here paths := by
  constructor
  · intro legal
    obtain ⟨path, mem⟩ := legal.nonempty sound
    exact ⟨⟨path, mem, legal.starts mem⟩, legal.proper sound⟩
  · obtain ⟨depth, lower⟩ := sound.deep
    -- by the depth of the node
    induction level : depth here using Nat.strong_induction_on generalizing here paths with
    | h level ih =>
      rintro ⟨active, proper⟩
      have inside : ∀ name, tree.child here name → Active paths (here ++ [name]) →
          Legal tree (here ++ [name]) (under paths (here ++ [name])) := fun name child active =>
        ih _ (level ▸ lower child) rfl
          ⟨(active_under (List.prefix_refl _)).mpr active, proper.under name⟩
      obtain ⟨path, mem, -⟩ := active
      rcases proper.mem_cases sound mem with rfl | ⟨name, below, child, choice | all⟩
      · have atomic := (proper.atomic path mem).2
        have single : paths = {path} := by
          refine Set.eq_singleton_iff_unique_mem.mpr ⟨mem, fun other found => ?_⟩
          rcases proper.mem_cases sound found with same | ⟨_, _, _, kind | kind⟩
          · exact same
          · rw [atomic] at kind
            cases kind
          · rw [atomic] at kind
            cases kind
        exact single ▸ .atomic atomic
      · obtain ⟨next, -, unique⟩ :=
          proper.choice (List.prefix_refl here) choice ⟨path, mem, above_of_step below⟩
        have same : under paths (here ++ [name]) = paths := by
          refine Set.sep_eq_self_iff_mem_true.mpr fun other found => ?_
          rcases proper.mem_cases sound found with rfl | ⟨name', below', child', -⟩
          · rw [(proper.atomic other found).2] at choice
            cases choice
          · have first := unique name ⟨child, path, mem, below⟩
            have second := unique name' ⟨child', other, found, below'⟩
            exact first.trans second.symm ▸ below'
        have inner := inside name child ⟨path, mem, below⟩
        rw [same] at inner
        exact .choice choice child inner
      · have whole := Legal.all all fun name child =>
          inside name child (proper.all (List.prefix_refl here) all
            ⟨path, mem, above_of_step below⟩ name child)
        convert whole using 1
        ext other
        constructor
        · intro found
          rcases proper.mem_cases sound found with rfl | ⟨name', below', child', -⟩
          · rw [(proper.atomic other found).2] at all
            cases all
          · exact ⟨name', child', found, below'⟩
        · rintro ⟨_, _, found, _⟩
          exact found

end Opensquid.Lib.LegalPaths
