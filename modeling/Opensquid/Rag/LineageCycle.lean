import Mathlib.Algebra.GroupWithZero.Nat
import Mathlib.Algebra.Order.BigOperators.Group.List
import Mathlib.Algebra.Order.Group.Nat
import Mathlib.Data.List.Chain
import Mathlib.Data.List.Nodup

/-!
# The guard against cycles of derivation

`detectCycleInWindow` walks the parents of every root with a stack of frames; a frame carries the
path from the root to its id. A parent that is on the path ends the walk with an error, and so does
a path that is longer than the window. Ancestors that are reached twice are walked twice.

A lineage is a chain of parents, from a root. `detectCycleInWindow_exact` says that the walk ends,
and that it throws exactly if some lineage comes back to an id of it or is longer than the window.
-/

namespace Opensquid.Rag.Lineage

variable {Id : Type*}

/-! ## The walk -/

def compressionMaxChainDepth : Nat := 16

structure Frame (Id : Type*) where
  id : Id
  path : List Id

section

variable [DecidableEq Id]

/-- The parents of the id at the end of the path are pushed, or one of them is on the path; the
error is the chain that it names. -/
def pushParents (path : List Id) : List Id → List (Frame Id) → Except (List Id) (List (Frame Id))
  | [], stack => .ok stack
  | parent :: parents, stack =>
      if parent ∈ path then .error (path ++ [parent])
      else pushParents path parents (⟨parent, path ++ [parent]⟩ :: stack)

/-- The loop over the stack, whose top is the first frame; none: more than `fuel` frames have been
popped. -/
def walk (getDerivedFrom : Id → Option (List Id)) :
    Nat → List (Frame Id) → Option (Except (List Id) Unit)
  | _, [] => some (.ok ())
  | 0, _ :: _ => none
  | fuel + 1, ⟨id, path⟩ :: stack =>
      if path.length > compressionMaxChainDepth then some (.error path)
      else
        match getDerivedFrom id with
        | none => walk getDerivedFrom fuel stack
        | some parents =>
            match pushParents path parents stack with
            | .error chain => some (.error chain)
            | .ok stack => walk getDerivedFrom fuel stack

/-- An error is the chain of a `CompressionCycleError`. -/
def detectCycleInWindow (fuel : Nat) (getDerivedFrom : Id → Option (List Id)) :
    List Id → Option (Except (List Id) Unit)
  | [] => some (.ok ())
  | root :: roots =>
      match walk getDerivedFrom fuel [⟨root, [root]⟩] with
      | none => none
      | some (.error chain) => some (.error chain)
      | some (.ok ()) => detectCycleInWindow fuel getDerivedFrom roots

end

/-! ## Lineages -/

variable {parentsOf : Id → Option (List Id)} {path chain : List Id} {id root : Id}
  {stack : List (Frame Id)} {n : Nat}

/-- The second is a parent of the first. -/
def IsParent (parentsOf : Id → Option (List Id)) (id parent : Id) : Prop :=
  ∃ parents, parentsOf id = some parents ∧ parent ∈ parents

/-- A chain of parents that starts at the root. -/
def IsLineage (parentsOf : Id → Option (List Id)) (root : Id) (chain : List Id) : Prop :=
  chain.head? = some root ∧ chain.IsChain (IsParent parentsOf)

/-- The chain comes back to an id of it, or is longer than the window. -/
def Offends (chain : List Id) : Prop := ¬ chain.Nodup ∨ compressionMaxChainDepth < chain.length

/-- A lineage goes on with the parents of its last id. -/
theorem IsLineage.concat {parent : Id} (lineage : IsLineage parentsOf root path)
    (last : path.getLast? = some id) (derived : IsParent parentsOf id parent) :
    IsLineage parentsOf root (path ++ [parent]) := by
  obtain ⟨first, chained⟩ := lineage
  refine ⟨?_, ?_⟩
  · rw [List.head?_append, first, Option.some_or]
  · rw [List.isChain_append]
    refine ⟨chained, List.isChain_singleton _, ?_⟩
    simp [last, derived]

theorem nodup_concat {parent : Id} (distinct : path.Nodup) (new : parent ∉ path) :
    (path ++ [parent]).Nodup := by
  rw [← List.concat_eq_append, List.nodup_concat]
  exact ⟨new, distinct⟩

/-! ## What an error names -/

/-- The path of a frame is a lineage of the root that ends with its id and has come back to none
of them. -/
structure Frame.Sound (parentsOf : Id → Option (List Id)) (root : Id) (f : Frame Id) : Prop where
  lineage : IsLineage parentsOf root f.path
  last : f.path.getLast? = some f.id
  nodup : f.path.Nodup

section

variable [DecidableEq Id]

/-- The parents that are pushed are those of the list, none of which is on the path. -/
theorem pushParents_ok {parents : List Id} {stack' : List (Frame Id)}
    (pushed : pushParents path parents stack = .ok stack') :
    (∀ parent ∈ parents, parent ∉ path) ∧
      stack' = (parents.map fun parent => ⟨parent, path ++ [parent]⟩).reverse ++ stack := by
  induction parents generalizing stack with
  | nil =>
      cases pushed
      simp
  | cons parent parents ih =>
      unfold pushParents at pushed
      split at pushed
      · cases pushed
      · rename_i new
        obtain ⟨free, same⟩ := ih pushed
        refine ⟨List.forall_mem_cons.mpr ⟨new, free⟩, ?_⟩
        simp [same]

theorem pushParents_error {parents : List Id}
    (back : pushParents path parents stack = .error chain) :
    ∃ parent ∈ parents, parent ∈ path ∧ chain = path ++ [parent] := by
  induction parents generalizing stack with
  | nil => cases back
  | cons parent parents ih =>
      unfold pushParents at back
      split at back
      · rename_i on
        cases back
        exact ⟨parent, List.mem_cons_self, on, rfl⟩
      · obtain ⟨other, mem, on, same⟩ := ih back
        exact ⟨other, List.mem_cons_of_mem _ mem, on, same⟩

/-- The chain of an error is a lineage that offends. -/
theorem walk_error {fuel : Nat} (sound : ∀ f ∈ stack, f.Sound parentsOf root)
    (thrown : walk parentsOf fuel stack = some (.error chain)) :
    IsLineage parentsOf root chain ∧ Offends chain := by
  induction fuel generalizing stack with
  | zero => cases stack <;> simp [walk] at thrown
  | succ fuel ih =>
      match stack with
      | [] => simp [walk] at thrown
      | ⟨id, path⟩ :: stack =>
          obtain ⟨top, rest⟩ := List.forall_mem_cons.mp sound
          unfold walk at thrown
          split at thrown
          · rename_i long
            cases thrown
            exact ⟨top.lineage, Or.inr long⟩
          split at thrown
          · exact ih rest thrown
          rename_i parents derived
          have parent : ∀ p ∈ parents, IsParent parentsOf id p := fun p mem => ⟨parents, derived, mem⟩
          split at thrown
          · rename_i chain' back
            cases thrown
            obtain ⟨p, mem, on, same⟩ := pushParents_error back
            subst same
            refine ⟨top.lineage.concat top.last (parent p mem), Or.inl fun distinct => ?_⟩
            exact (List.nodup_append.mp distinct).2.2 p on p List.mem_cons_self rfl
          · rename_i stack' pushed
            obtain ⟨free, same⟩ := pushParents_ok pushed
            apply ih _ thrown
            intro f mem
            rw [same] at mem
            rcases List.mem_append.mp mem with new | old
            · simp only [List.mem_reverse, List.mem_map] at new
              obtain ⟨p, listed, rfl⟩ := new
              refine ⟨top.lineage.concat top.last (parent p listed), by simp, ?_⟩
              exact nodup_concat top.nodup (free p listed)
            · exact rest f old

/-! ## What is left out by none -/

/-- No lineage that goes on from the frame offends. -/
def Frame.Clear (parentsOf : Id → Option (List Id)) (f : Frame Id) : Prop :=
  ∀ more, (f.id :: more).IsChain (IsParent parentsOf) → f.path.Nodup → ¬ Offends (f.path ++ more)

/-- A walk that comes to its end has met every lineage from the frames of its stack. -/
theorem walk_ok {fuel : Nat} (done : walk parentsOf fuel stack = some (.ok ())) :
    ∀ f ∈ stack, f.Clear parentsOf := by
  induction fuel generalizing stack with
  | zero =>
      cases stack with
      | nil => simp
      | cons => simp [walk] at done
  | succ fuel ih =>
      match stack with
      | [] => simp
      | ⟨id, path⟩ :: stack =>
          unfold walk at done
          split at done
          · cases done
          rename_i short
          have here : path.Nodup → ¬ Offends path := by
            intro distinct
            simp only [Offends, distinct, not_true_eq_false, false_or]
            omega
          split at done
          · rename_i absent
            refine List.forall_mem_cons.mpr ⟨?_, ih done⟩
            intro more chained distinct
            cases more with
            | nil => simpa using here distinct
            | cons parent more =>
                obtain ⟨parents, derived, -⟩ := (List.isChain_cons_cons.mp chained).1
                rw [absent] at derived
                cases derived
          rename_i parents derived
          split at done
          · cases done
          rename_i stack' pushed
          obtain ⟨free, same⟩ := pushParents_ok pushed
          have clear := ih done
          rw [same] at clear
          refine List.forall_mem_cons.mpr ⟨?_, fun f mem => clear f (List.mem_append_right _ mem)⟩
          intro more chained distinct
          cases more with
          | nil => simpa using here distinct
          | cons parent more =>
              obtain ⟨⟨parents', derived', mem⟩, chained⟩ := List.isChain_cons_cons.mp chained
              have same : parents' = parents := by
                rw [derived] at derived'
                exact (Option.some.inj derived').symm
              subst same
              have next : (⟨parent, path ++ [parent]⟩ : Frame Id).Clear parentsOf :=
                clear _ (List.mem_append_left _ (by simpa using mem))
              simpa using next more chained (nodup_concat distinct (free parent mem))

/-! ## How long it takes -/

/-- The frames that are popped from one whose path may grow by `depth` ids, if nothing is thrown. -/
def frames (parentsOf : Id → Option (List Id)) : Nat → Id → Nat
  | 0, _ => 1
  | depth + 1, id => 1 + (((parentsOf id).getD []).map (frames parentsOf depth)).sum

/-- The frames that are still to be popped. -/
def work (parentsOf : Id → Option (List Id)) (stack : List (Frame Id)) : Nat :=
  (stack.map fun f => frames parentsOf (compressionMaxChainDepth + 1 - f.path.length) f.id).sum

theorem walk_isSome {fuel : Nat} (enough : work parentsOf stack ≤ fuel) :
    (walk parentsOf fuel stack).isSome := by
  induction fuel generalizing stack with
  | zero =>
      match stack with
      | [] => simp [walk]
      | f :: stack =>
          have positive : 0 < frames parentsOf (compressionMaxChainDepth + 1 - f.path.length) f.id := by
            unfold frames
            split <;> omega
          simp only [work, List.map_cons, List.sum_cons] at enough
          omega
  | succ fuel ih =>
      match stack with
      | [] => simp [walk]
      | ⟨id, path⟩ :: stack =>
          simp only [work, List.map_cons, List.sum_cons] at enough
          unfold walk
          split
          · rfl
          rename_i short
          obtain ⟨depth, room⟩ : ∃ depth, compressionMaxChainDepth + 1 - path.length = depth + 1 :=
            ⟨compressionMaxChainDepth - path.length, by omega⟩
          rw [room, frames] at enough
          split
          · apply ih
            simp only [work]
            omega
          rename_i parents derived
          rw [derived] at enough
          split
          · rfl
          rename_i stack' pushed
          obtain ⟨free, same⟩ := pushParents_ok pushed
          have left : compressionMaxChainDepth + 1 - (path.length + 1) = depth := by omega
          apply ih
          have pushed : work parentsOf stack' = (parents.map (frames parentsOf depth)).sum +
              work parentsOf stack := by
            simp only [same, work, List.map_append, List.sum_append, List.map_reverse,
              List.sum_reverse, List.map_map, Function.comp_def, List.length_append,
              List.length_singleton, left]
          rw [pushed, work]
          rw [Option.getD_some] at enough
          omega

/-- More fuel makes no difference. -/
theorem walk_mono {fuel fuel' : Nat} {outcome : Except (List Id) Unit} (more : fuel ≤ fuel')
    (ended : walk parentsOf fuel stack = some outcome) :
    walk parentsOf fuel' stack = some outcome := by
  induction fuel generalizing stack fuel' with
  | zero =>
      match stack with
      | [] => simpa [walk] using ended
      | _ :: _ => simp [walk] at ended
  | succ fuel ih =>
      obtain ⟨fuel', rfl⟩ : ∃ k, fuel' = k + 1 := ⟨fuel' - 1, by omega⟩
      have less : fuel ≤ fuel' := by omega
      match stack with
      | [] => simpa [walk] using ended
      | ⟨id, path⟩ :: stack =>
          unfold walk at ended ⊢
          split at ended
          · rename_i long
            rwa [if_pos long]
          rename_i short
          rw [if_neg short]
          split at ended
          · exact ih less ended
          split at ended
          · exact ended
          · exact ih less ended

/-! ## The guard -/

/-- The walk from one root. -/
theorem walk_root {fuel : Nat} {outcome : Except (List Id) Unit}
    (ended : walk parentsOf fuel [⟨root, [root]⟩] = some outcome) :
    (∀ chain, outcome = .error chain → IsLineage parentsOf root chain ∧ Offends chain) ∧
      (outcome = .ok () → ∀ chain, IsLineage parentsOf root chain → ¬ Offends chain) := by
  constructor
  · intro chain thrown
    subst thrown
    apply walk_error _ ended
    intro f mem
    rw [List.mem_singleton] at mem
    subst mem
    exact ⟨⟨rfl, List.isChain_singleton _⟩, rfl, List.nodup_singleton _⟩
  · intro done chain lineage
    subst done
    obtain ⟨first, chained⟩ := lineage
    match chain with
    | [] => cases first
    | id :: more =>
        cases first
        have clear : (⟨root, [root]⟩ : Frame Id).Clear parentsOf := walk_ok ended _ List.mem_cons_self
        exact clear more chained (List.nodup_singleton _)

/-- What the outcome of the guard says about the lineages of the roots. -/
theorem detectCycleInWindow_spec {fuel : Nat} {roots : List Id} {outcome : Except (List Id) Unit}
    (ended : detectCycleInWindow fuel parentsOf roots = some outcome) :
    (∀ chain, outcome = .error chain →
      ∃ root ∈ roots, IsLineage parentsOf root chain ∧ Offends chain) ∧
    (outcome = .ok () → ∀ root ∈ roots, ∀ chain, IsLineage parentsOf root chain → ¬ Offends chain) := by
  induction roots with
  | nil =>
      cases ended
      simp
  | cons root roots ih =>
      unfold detectCycleInWindow at ended
      split at ended
      · cases ended
      · rename_i chain thrown
        cases ended
        refine ⟨?_, by simp⟩
        intro chain' same
        cases same
        exact ⟨root, List.mem_cons_self, (walk_root thrown).1 chain rfl⟩
      · rename_i done
        obtain ⟨throws, clear⟩ := ih ended
        refine ⟨?_, ?_⟩
        · intro chain thrown
          obtain ⟨other, mem, offends⟩ := throws chain thrown
          exact ⟨other, List.mem_cons_of_mem _ mem, offends⟩
        · intro resolves
          exact List.forall_mem_cons.mpr ⟨(walk_root done).2 rfl, clear resolves⟩

theorem detectCycleInWindow_isSome {fuel : Nat} {roots : List Id}
    (enough : ∀ root ∈ roots, work parentsOf [⟨root, [root]⟩] ≤ fuel) :
    (detectCycleInWindow fuel parentsOf roots).isSome := by
  induction roots with
  | nil => rfl
  | cons root roots ih =>
      obtain ⟨first, rest⟩ := List.forall_mem_cons.mp enough
      unfold detectCycleInWindow
      split
      · rename_i out
        have some := walk_isSome first
        rw [out] at some
        cases some
      · rfl
      · exact ih rest

theorem detectCycleInWindow_mono {fuel fuel' : Nat} {roots : List Id}
    {outcome : Except (List Id) Unit} (more : fuel ≤ fuel')
    (ended : detectCycleInWindow fuel parentsOf roots = some outcome) :
    detectCycleInWindow fuel' parentsOf roots = some outcome := by
  induction roots with
  | nil => exact ended
  | cons root roots ih =>
      unfold detectCycleInWindow at ended ⊢
      split at ended
      · cases ended
      · rename_i chain thrown
        rw [walk_mono more thrown]
        exact ended
      · rename_i done
        rw [walk_mono more done]
        exact ih ended

/-- The outcome throws exactly if a lineage of a root offends. -/
theorem throws_iff {fuel : Nat} {roots : List Id} {outcome : Except (List Id) Unit}
    (ended : detectCycleInWindow fuel parentsOf roots = some outcome) :
    (∃ chain, outcome = .error chain) ↔
      ∃ root ∈ roots, ∃ chain, IsLineage parentsOf root chain ∧ Offends chain := by
  obtain ⟨throws, clear⟩ := detectCycleInWindow_spec ended
  constructor
  · intro ⟨chain, thrown⟩
    obtain ⟨root, mem, offends⟩ := throws chain thrown
    exact ⟨root, mem, chain, offends⟩
  · intro ⟨root, mem, chain, lineage, offends⟩
    match outcome with
    | .error chain' => exact ⟨chain', rfl⟩
    | .ok () => exact absurd offends (clear rfl root mem chain lineage)

/-- For every lookup of parents and every list of roots: the guard ends; it throws exactly if a
chain of parents from a root comes back to an id of it or is longer than the window, and names such
a chain; and the order in which roots and parents are listed makes no difference. So ancestors that
two lineages share and ids that are not found do not make it throw. -/
theorem detectCycleInWindow_exact (parentsOf : Id → Option (List Id)) (roots : List Id) :
    ∃ outcome, (∃ enough, ∀ fuel ≥ enough, detectCycleInWindow fuel parentsOf roots = some outcome) ∧
      ((∃ chain, outcome = .error chain) ↔
        ∃ root ∈ roots, ∃ chain, IsLineage parentsOf root chain ∧ Offends chain) ∧
      (∀ chain, outcome = .error chain →
        ∃ root ∈ roots, IsLineage parentsOf root chain ∧ Offends chain) ∧
      ∀ parentsOf' roots', (∀ id parent, IsParent parentsOf' id parent ↔ IsParent parentsOf id parent) →
        (∀ root, root ∈ roots' ↔ root ∈ roots) →
        ∀ fuel outcome', detectCycleInWindow fuel parentsOf' roots' = some outcome' →
          ((∃ chain, outcome' = .error chain) ↔ ∃ chain, outcome = .error chain) := by
  let enough := (roots.map fun root => work parentsOf [⟨root, [root]⟩]).sum
  have some : (detectCycleInWindow enough parentsOf roots).isSome := by
    apply detectCycleInWindow_isSome
    intro root mem
    exact List.le_sum_of_mem (List.mem_map_of_mem mem)
  obtain ⟨outcome, ended⟩ := Option.isSome_iff_exists.mp some
  refine ⟨outcome, ⟨enough, fun fuel more => detectCycleInWindow_mono more ended⟩,
    throws_iff ended, (detectCycleInWindow_spec ended).1, ?_⟩
  intro parentsOf' roots' sameParents sameRoots fuel outcome' ended'
  rw [throws_iff ended, throws_iff ended']
  have same : IsParent parentsOf' = IsParent parentsOf :=
    funext fun id => funext fun parent => propext (sameParents id parent)
  simp only [IsLineage, same, sameRoots]

end

end Opensquid.Rag.Lineage
