import Mathlib
import Opensquid.Lib.Steps
import Opensquid.Loop.Decompose

/-!
# Re-decomposition after a crash

A task is decomposed again and again, one call after the other, and any call may be
cut off between two of its work-graph calls. A call that finds no live child of its
generation leaves the complete decomposition (`reconcile_fresh`), whatever it starts
from. A call that finds one returns at once; the decomposition is then complete only
if no call has written since the last one that ran to completion (`cutOff_stays_partial`,
`decomposition_converges`).
-/

namespace Opensquid.Loop

open Opensquid.Lib Opensquid.WorkGraph

/-! ## What a completed call leaves -/

/-- The live children of the task are one issue for each element, stamped with the
generation, joined exactly by the declared dependencies. -/
structure Decomposed (b : Board) (taskId gen : String) (ext : ScopeExtract) : Prop where
  one : ∀ el ∈ ext.authoredElements, ∃! i, LiveChild b taskId i ∧ i.body = stamp el gen
  only : ∀ i, LiveChild b taskId i → ∃ el ∈ ext.authoredElements, i.body = stamp el gen
  blocks : ∀ el ∈ ext.authoredElements, ∀ el' ∈ ext.authoredElements, ∀ i i',
    LiveChild b taskId i → i.body = stamp el gen → LiveChild b taskId i' → i'.body = stamp el' gen →
      (b.edge i.id i'.id = some .blocks ↔ ⟨el', el⟩ ∈ ext.deps)

theorem Decomposed.same {b : Board} {taskId gen : String} {ext other : ScopeExtract}
    (decomposed : Decomposed b taskId gen ext) (same : ext.Same other) :
    Decomposed b taskId gen other where
  one el mem := decomposed.one el ((same.1 el).mpr mem)
  only i child := by
    obtain ⟨el, mem, body⟩ := decomposed.only i child
    exact ⟨el, (same.1 el).mp mem, body⟩
  blocks el mem el' mem' i i' child body child' body' :=
    (decomposed.blocks el ((same.1 el).mpr mem) el' ((same.1 el').mpr mem') i i'
      child body child' body').trans (same.2 _)

/-! ## One call -/

section

variable {digest : Digest} {taskId gen : String} {b : Board} {cut : WgCall → Board → Prop}

/-- The live children of the task are the issues of the map, stamped. -/
structure Created (b : Board) (taskId gen : String) (idOf : String → Option String) : Prop where
  child : ∀ el id, idOf el = some id →
    ∃ i, LiveChild b taskId i ∧ i.id = id ∧ i.body = stamp el gen
  only : ∀ i, LiveChild b taskId i → ∃ el, idOf el = some i.id

/-- The issues of the map are joined by the dependencies. -/
def Linked (b : Board) (idOf : String → Option String) (deps : List Dep) : Prop :=
  ∀ el el' x y, idOf el = some x → idOf el' = some y →
    (b.edge x y = some .blocks ↔ ⟨el', el⟩ ∈ deps)

theorem LiveChild.ne_task {i : Issue} (child : LiveChild b taskId i) : i.id ≠ taskId :=
  (Board.ends_of_edge child.owned).2.2.symm

theorem LiveChild.eq {i i' : Issue} (child : LiveChild b taskId i) (child' : LiveChild b taskId i')
    (same : i.id = i'.id) : i = i' :=
  Option.some.inj (child.present.symm.trans (same ▸ child'.present))

theorem Created.inj {idOf : String → Option String} (created : Created b taskId gen idOf)
    {el el' id : String} (at_el : idOf el = some id) (at_el' : idOf el' = some id) : el = el' := by
  obtain ⟨i, child, rfl, body⟩ := created.child el id at_el
  obtain ⟨i', child', same, body'⟩ := created.child el' i.id at_el'
  cases child.eq child' same.symm
  exact stamp_inj (body.symm.trans body')

/-- A created and linked issue is the only new live child. -/
theorem liveChild_link {title body id : String} {new : b.issues.get id = none} {ends noLoop}
    {i : Issue} :
    LiveChild ((b.create title body id new).putEdge ⟨taskId, id, .parentChild⟩ ends noLoop)
        taskId i ↔
      LiveChild b taskId i ∨ i = { id, title, body, status := .open } := by
  by_cases same : i.id = id
  · constructor
    · intro child
      have present := child.present
      rw [Board.issue_putEdge, same, Board.issue_create_self] at present
      exact .inr (Option.some.inj present).symm
    · rintro (child | rfl)
      · have present := child.present
        rw [same, Board.issue, new] at present
        cases present
      · refine ⟨Board.edge_putEdge_self (e := ⟨taskId, id, .parentChild⟩), ?_, (by decide : IssueStatus.open ≠ .archived)⟩
        rw [Board.issue_putEdge, Board.issue_create_self]
  · have edges : ((b.create title body id new).putEdge ⟨taskId, id, .parentChild⟩ ends noLoop).edge
        taskId i.id = b.edge taskId i.id :=
      Board.edge_putEdge_of_ne fun ends => same (Prod.ext_iff.mp ends).2
    have issues : ((b.create title body id new).putEdge ⟨taskId, id, .parentChild⟩ ends noLoop).issue
        i.id = b.issue i.id := by
      rw [Board.issue_putEdge, Board.issue_create_of_ne same]
    constructor
    · intro child
      exact .inl ⟨edges ▸ child.owned, issues ▸ child.present, child.live⟩
    · rintro (child | rfl)
      · exact ⟨edges.trans child.owned, issues.trans child.present, child.live⟩
      · exact absurd rfl same

/-- The loop over the elements: what it has created, and that nothing joins it yet. -/
structure Creating (b : Board) (taskId gen : String) (elements : List String)
    (idOf : String → Option String) (rest : List String) : Prop where
  created : Created b taskId gen idOf
  unlinked : Linked b idOf []
  elements : ∀ el, el ∈ elements ↔ (idOf el).isSome ∨ el ∈ rest
  left : ∀ el ∈ rest, idOf el = none
  distinct : rest.Nodup

theorem Creating.next {elements rest : List String} {idOf : String → Option String} {el id : String}
    {new : b.issues.get id = none} {ends noLoop}
    (creating : Creating b taskId gen elements idOf (el :: rest)) :
    Creating ((b.create el (stamp el gen) id new).putEdge ⟨taskId, id, .parentChild⟩ ends noLoop)
      taskId gen elements (Function.update idOf el (some id)) rest := by
  obtain ⟨fresh, distinct⟩ := List.nodup_cons.mp creating.distinct
  have unused : idOf el = none := creating.left el List.mem_cons_self
  refine ⟨⟨fun k x at_k => ?_, fun i child => ?_⟩, fun k k' x y at_k at_k' => ?_, fun k => ?_,
    fun k mem => ?_, distinct⟩
  · by_cases same : k = el
    · subst same
      rw [Function.update_self, Option.some.injEq] at at_k
      exact ⟨_, liveChild_link.mpr (.inr rfl), at_k, rfl⟩
    · rw [Function.update_of_ne same] at at_k
      obtain ⟨i, child, eq, body⟩ := creating.created.child k x at_k
      exact ⟨i, liveChild_link.mpr (.inl child), eq, body⟩
  · rcases liveChild_link.mp child with old | rfl
    · obtain ⟨k, at_k⟩ := creating.created.only i old
      refine ⟨k, ?_⟩
      rwa [Function.update_of_ne fun same => by rw [same, unused] at at_k; cases at_k]
    · exact ⟨el, Function.update_self el (some id) idOf⟩
  · -- the new issue has no edge but the one from the task, which is none of the children
    have alone : ∀ z, b.edge id z = none ∧ b.edge z id = none := fun z => by
      have absent : ¬ (b.issue id).isSome := by rw [Board.issue, new]; exact Bool.false_ne_true
      constructor
      · by_contra joined
        obtain ⟨type, typed⟩ := Option.ne_none_iff_exists'.mp joined
        exact absent (Board.ends_of_edge typed).1
      · by_contra joined
        obtain ⟨type, typed⟩ := Option.ne_none_iff_exists'.mp joined
        exact absent (Board.ends_of_edge typed).2.1
    have child : ∀ k x, Function.update idOf el (some id) k = some x →
        x = id ∨ idOf k = some x := fun k x at_k => by
      by_cases same : k = el
      · subst same
        rw [Function.update_self, Option.some.injEq] at at_k
        exact .inl at_k.symm
      · rw [Function.update_of_ne same] at at_k
        exact .inr at_k
    have notTask : x ≠ taskId := by
      rcases child k x at_k with rfl | old
      · exact fun same => noLoop same.symm
      · obtain ⟨i, child, rfl, _⟩ := creating.created.child k x old
        exact child.ne_task
    rw [Board.edge_putEdge_of_ne fun same => notTask (Prod.ext_iff.mp same).1, Board.edge_create]
    rcases child k x at_k with rfl | old
    · rw [(alone y).1]
      constructor <;> intro h <;> cases h
    · rcases child k' y at_k' with rfl | old'
      · rw [(alone x).2]
        constructor <;> intro h <;> cases h
      · exact creating.unlinked k k' x y old old'
  · rw [creating.elements, List.mem_cons]
    by_cases same : k = el
    · subst same
      simp only [Function.update_self, Option.isSome_some, true_or, or_true]
    · rw [Function.update_of_ne same]
      simp only [same, false_or]
  · rw [Function.update_of_ne fun same : k = el => fresh (same ▸ mem)]
    exact creating.left k (List.mem_cons_of_mem _ mem)

/-- One dependency more. -/
theorem Linked.next {idOf : String → Option String} {deps : List Dep} {d : Dep}
    (linked : Linked b idOf deps) (created : Created b taskId gen idOf) {x y : String} {ends noLoop}
    (at_x : idOf d.dependsOn = some x) (at_y : idOf d.element = some y) :
    Linked (b.putEdge ⟨x, y, .blocks⟩ ends noLoop) idOf (deps ++ [d]) := by
  intro el el' x' y' at_x' at_y'
  by_cases same : (x', y') = (x, y)
  · cases same
    have : d = ⟨el', el⟩ := by
      cases d
      cases created.inj at_x at_x'
      cases created.inj at_y at_y'
      rfl
    rw [this]
    exact ⟨fun _ => List.mem_append_right _ (List.mem_singleton_self _),
      fun _ => Board.edge_putEdge_self (e := ⟨x, y, .blocks⟩)⟩
  · rw [Board.edge_putEdge_of_ne same, linked el el' x' y' at_x' at_y', List.mem_append,
      List.mem_singleton]
    refine ⟨.inl, fun either => either.resolve_right fun other => same ?_⟩
    subst other
    rw [Option.some.inj (at_x'.symm.trans at_x), Option.some.inj (at_y'.symm.trans at_y)]

/-- A dependency on something else changes nothing. -/
theorem Linked.skip {idOf : String → Option String} {deps : List Dep} {d : Dep}
    (linked : Linked b idOf deps) (other : idOf d.dependsOn = none ∨ idOf d.element = none) :
    Linked b idOf (deps ++ [d]) := by
  intro el el' x y at_x at_y
  rw [linked el el' x y at_x at_y, List.mem_append, List.mem_singleton]
  refine ⟨.inl, fun either => either.resolve_right fun same => ?_⟩
  subst same
  rcases other with none | none
  · rw [at_x] at none
    cases none
  · rw [at_y] at none
    cases none

theorem Created.putEdge {idOf : String → Option String} (created : Created b taskId gen idOf)
    {x y : String} {ends noLoop} (notTask : x ≠ taskId) :
    Created (b.putEdge ⟨x, y, .blocks⟩ ends noLoop) taskId gen idOf := by
  have same : ∀ i, LiveChild (b.putEdge ⟨x, y, .blocks⟩ ends noLoop) taskId i ↔
      LiveChild b taskId i := fun i => by
    have edges : (b.putEdge ⟨x, y, .blocks⟩ ends noLoop).edge taskId i.id = b.edge taskId i.id :=
      Board.edge_putEdge_of_ne fun ends => notTask (Prod.ext_iff.mp ends).1.symm
    exact ⟨fun child => ⟨edges ▸ child.owned, child.present, child.live⟩,
      fun child => ⟨edges.trans child.owned, child.present, child.live⟩⟩
  refine ⟨fun el id at_el => ?_, fun i child => created.only i ((same i).mp child)⟩
  obtain ⟨i, child, eq, body⟩ := created.child el id at_el
  exact ⟨i, (same i).mpr child, eq, body⟩

theorem Decomposed.of_linked {ext : ScopeExtract} {idOf : String → Option String}
    (created : Created b taskId gen idOf) (linked : Linked b idOf ext.deps)
    (elements : ∀ el, el ∈ ext.authoredElements ↔ (idOf el).isSome) :
    Decomposed b taskId gen ext := by
  have at_body : ∀ el i, LiveChild b taskId i → i.body = stamp el gen → idOf el = some i.id := by
    intro el i child body
    obtain ⟨el', at_el'⟩ := created.only i child
    obtain ⟨i', child', same, body'⟩ := created.child el' i.id at_el'
    cases child'.eq child same
    cases stamp_inj (body.symm.trans body')
    exact at_el'
  refine ⟨fun el mem => ?_, fun i child => ?_, fun el _ el' _ i i' child body child' body' => ?_⟩
  · obtain ⟨id, at_el⟩ := Option.isSome_iff_exists.mp ((elements el).mp mem)
    obtain ⟨i, child, same, body⟩ := created.child el id at_el
    refine ⟨i, ⟨child, body⟩, fun i' other => other.1.eq child ?_⟩
    rw [same, ← Option.some.inj ((at_body el i' other.1 other.2).symm.trans at_el)]
  · obtain ⟨el, at_el⟩ := created.only i child
    obtain ⟨i', child', same, body⟩ := created.child el i.id at_el
    cases child'.eq child same
    exact ⟨el, (elements el).mpr (Option.isSome_iff_exists.mpr ⟨_, at_el⟩), body⟩
  · exact linked el el' i.id i'.id (at_body el i child body) (at_body el' i' child' body')

/-! ### The programs -/

theorem createChild_always {elements rest : List String} {idOf : String → Option String}
    {el : String} {post : Option (String → Option String) → Board → Prop}
    (creating : Creating b taskId gen elements idOf (el :: rest))
    (thrown : ∀ t, post none t)
    (next : ∀ t idOf, Creating t taskId gen elements idOf rest → post (some idOf) t) :
    (createChild taskId gen idOf el).Always (Board.exec digest) (fun _ _ => True) post b := by
  refine Program.Always.bind (Wg.createIssue_always trivial fun id new => ?_)
  refine Program.Always.bind (Wg.addEdge_always trivial (thrown _) fun ends noLoop => ?_)
  exact next _ _ creating.next

theorem autoDecompose_always {ext : ScopeExtract} {post : Option Unit → Board → Prop}
    (empty : ∀ i, ¬ LiveChild b taskId i) (thrown : ∀ t, post none t)
    (done : ∀ t, Decomposed t taskId gen ext → post (some ()) t) :
    (autoDecompose (some ext) taskId gen).Always (Board.exec digest) (fun _ _ => True) post b := by
  refine Program.Always.bind (Program.Always.foldEach
    (fun idOf rest t => Creating t taskId gen ext.authoredElements idOf rest)
    (fun idOf el rest t creating => createChild_always creating thrown fun _ _ next => next)
    (fun idOf t creating => ?_) ?_)
  · have elements : ∀ el, el ∈ ext.authoredElements ↔ (idOf el).isSome := fun el =>
      (creating.elements el).trans (or_iff_left List.not_mem_nil)
    refine Program.Always.forEach (fun rest t => Created t taskId gen idOf ∧
        ∃ linked, linked ++ rest = ext.deps ∧ Linked t idOf linked)
      (fun d rest t ⟨created, linked, split, joined⟩ => ?_)
      (fun t ⟨created, linked, split, joined⟩ => ?_)
      ⟨creating.created, [], rfl, creating.unlinked⟩
    · have split' : (linked ++ [d]) ++ rest = ext.deps := by
        rw [List.append_assoc, List.singleton_append, split]
      rw [linkDep]
      split
      · rename_i x y at_x at_y
        refine Wg.addEdge_always trivial (thrown _) fun ends noLoop => ?_
        obtain ⟨i, child, rfl, _⟩ := created.child d.dependsOn x at_x
        exact ⟨created.putEdge child.ne_task, _, split', joined.next created at_x at_y⟩
      · rename_i none_some
        refine ⟨created, _, split', joined.skip ?_⟩
        cases at_x : idOf d.dependsOn with
        | none => exact .inl rfl
        | some x =>
            cases at_y : idOf d.element with
            | none => exact .inr rfl
            | some y => exact absurd at_y (none_some x y at_x)
    · rw [List.append_nil] at split
      exact done t (.of_linked created (split ▸ joined) elements)
  · exact ⟨⟨nofun, fun i child => absurd child (empty i)⟩, nofun,
      fun el => ⟨.inr, fun either => either.resolve_left Bool.false_ne_true⟩, fun _ _ => rfl,
      ext.distinct⟩

variable {ext : ScopeExtract}

/-- A call that finds no live child of its generation leaves the decomposition, if it
returns. -/
theorem reconcile_fresh {post : Option ReconcileResult → Board → Prop}
    (fresh : ∀ i, LiveChild b taskId i → genOf i.body ≠ some (deriveGenerationId digest ext))
    (thrown : ∀ t, post none t)
    (done : ∀ t result, Decomposed t taskId (deriveGenerationId digest ext) ext →
      post (some result) t) :
    (reconcileDecomposition digest taskId (some ext) ext).Always (Board.exec digest)
      (fun _ _ => True) post b := by
  refine Program.Always.bind (Wg.listIssues_always trivial ?_)
  refine Program.Always.bind (Wg.listEdges_always trivial ?_)
  have different : ∀ i ∈ childrenOf b.issues.rows (b.listEdges digest) taskId,
      genOf i.body ≠ some (deriveGenerationId digest ext) := fun i mem => fresh i (mem_childrenOf.mp mem)
  have none_current : ¬ ((childrenOf b.issues.rows (b.listEdges digest) taskId).any fun c =>
      genOf c.body = some (deriveGenerationId digest ext)) = true := by
    simpa using different
  dsimp only
  rw [if_neg none_current]
  refine Program.Always.bind (Program.Always.forEach
    (fun rest t => ∀ i, LiveChild t taskId i → i.id ∈ rest.map (·.id))
    (fun c rest t archiving => ?_) (fun t archived => ?_) fun i child => ?_)
  · refine Wg.archiveIssue_always trivial (fun _ => thrown t) fun _ i child => ?_
    -- the archived issue is no live child any more, the others are unchanged
    have other : i.id ≠ c.id := fun same => by
      obtain ⟨old, present, rfl⟩ := Option.map_eq_some_iff.mp
        ((Board.issue_modify_self.symm.trans (same ▸ child.present)))
      exact child.live rfl
    have old : LiveChild t taskId i :=
      ⟨child.owned, (Board.issue_modify_of_ne other).symm.trans child.present, child.live⟩
    exact (List.mem_cons.mp (archiving i old)).resolve_left other
  · refine Program.Always.bind (autoDecompose_always (fun i child => ?_) thrown fun t decomposed => ?_)
    · exact List.not_mem_nil (archived i child)
    · exact done t _ decomposed
  · refine List.mem_map_of_mem (List.mem_filter.mpr ⟨mem_childrenOf.mpr child, ?_⟩)
    exact decide_eq_true (fresh i child)

/-- SHA-256 digests are printed in hexadecimal. -/
def HexDigest (digest : Digest) : Prop :=
  ∀ n text, ∀ c ∈ (digest n text).toList, c.isDigit ∨ c ∈ ['a', 'b', 'c', 'd', 'e', 'f']

theorem deriveGenerationId_oneLine (hex : HexDigest digest) (ext : ScopeExtract) :
    OneLine (deriveGenerationId digest ext) := by
  have fixed : ∀ c ∈ "gen-".toList ++ ['a', 'b', 'c', 'd', 'e', 'f'],
      isLineTerminator c = false := not_terminator_of_all (by decide)
  intro c mem
  rw [deriveGenerationId, String.toList_append] at mem
  rcases List.mem_append.mp mem with label | digits
  · exact fixed c (List.mem_append_left _ label)
  · rcases hex _ _ c digits with digit | letter
    · by_contra ended
      rw [Bool.not_eq_false] at ended
      simp only [isLineTerminator, decide_eq_true_eq, List.mem_cons, List.not_mem_nil, or_false]
        at ended
      rcases ended with rfl | rfl | rfl | rfl <;> revert digit <;> decide
    · exact fixed c (List.mem_append_right _ letter)

theorem deriveGenerationId_ne_empty (ext : ScopeExtract) : deriveGenerationId digest ext ≠ "" := by
  intro empty
  have text := congrArg String.toList empty
  rw [deriveGenerationId, String.toList_append] at text
  cases text

theorem Decomposed.genOf {i : Issue} (hex : HexDigest digest)
    (decomposed : Decomposed b taskId (deriveGenerationId digest ext) ext)
    (child : LiveChild b taskId i) : genOf i.body = some (deriveGenerationId digest ext) := by
  obtain ⟨el, mem, body⟩ := decomposed.only i child
  rw [body]
  exact genOf_stamp (ext.oneLine el mem) (deriveGenerationId_oneLine hex ext)
    (deriveGenerationId_ne_empty ext)

/-- A call on a complete decomposition of its generation writes nothing. -/
theorem Decomposed.idle (hex : HexDigest digest)
    (decomposed : Decomposed b taskId (deriveGenerationId digest ext) ext) :
    (reconcileDecomposition digest taskId (some ext) ext).Always (Board.exec digest)
      (fun _ => (· = b)) (fun _ t => t = b) b := by
  refine Program.Always.bind (Wg.listIssues_always rfl ?_)
  refine Program.Always.bind (Wg.listEdges_always rfl ?_)
  dsimp only
  split
  · exact rfl
  · rename_i none_current
    have empty : childrenOf b.issues.rows (b.listEdges digest) taskId = [] := by
      refine List.eq_nil_iff_forall_not_mem.mpr fun i mem => none_current ?_
      exact List.any_eq_true.mpr
        ⟨i, mem, decide_eq_true (decomposed.genOf hex (mem_childrenOf.mp mem))⟩
    have nothing : ext.authoredElements = [] := by
      refine List.eq_nil_iff_forall_not_mem.mpr fun el mem => ?_
      obtain ⟨i, child, _⟩ := decomposed.one el mem
      exact List.not_mem_nil (empty ▸ (@mem_childrenOf digest _ _ _).mpr child.1)
    rw [empty]
    refine Program.Always.bind ?_
    refine Program.Always.bind (Program.Always.bind ?_)
    rw [nothing]
    exact Program.Always.forEach (f := linkDep fun _ => none) (fun _ t => t = b)
      (fun _ _ _ same => same) (fun _ same => same) rfl

end

/-! ## The system -/

section

variable (digest : Digest) (taskId : String)

structure Sys where
  board : Board
  /-- The call in progress: its artifact and what is left of it. -/
  call : Option (ScopeExtract × Async ReconcileResult)
  /-- The artifact of the last call that ran to completion, if nothing was written since. -/
  settled : Option ScopeExtract

def Sys.init (board : Board) : Sys := ⟨board, none, none⟩

inductive Event
  /-- `reconcileDecomposition` is called for an artifact. -/
  | called (ext : ScopeExtract)
  /-- The call in progress makes its next work-graph call. -/
  | advance (choice : Choice)
  /-- The call in progress is cut off. -/
  | cutOff

/-- The next call of a program writes. -/
def writesNext : Async ReconcileResult → Bool
  | .call op _ => op.writes
  | _ => false

/-- One event; `none` when it is not enabled. -/
def Sys.step (s : Sys) : Event → Option Sys
  | .called ext =>
      if s.call.isSome then none
      else some { s with call := some (ext, reconcileDecomposition digest taskId (some ext) ext) }
  | .advance choice =>
      s.call.bind fun (ext, program) =>
        (program.step (Board.exec digest) choice s.board).map fun (board, rest) =>
          let settled := if writesNext program then none else s.settled
          match rest.outcome with
          | some (some _) => ⟨board, none, some ext⟩
          | some none => ⟨board, none, settled⟩
          | none => ⟨board, some (ext, rest), settled⟩
  | .cutOff => if s.call.isSome then some { s with call := none } else none

variable (artifacts : ScopeExtract → Prop)

/-- When a call for a generation begins, no live child of the task carries the
generation, or nothing was written since the last call that ran to completion. -/
def Undivided (s : Sys) : Event → Prop
  | .called ext => artifacts ext ∧
      ((∀ i ∈ childrenOf s.board.issues.rows (s.board.listEdges digest) taskId,
        genOf i.body ≠ some (deriveGenerationId digest ext)) ∨ s.settled.isSome)
  | _ => True

instance [DecidablePred artifacts] (s : Sys) (e : Event) :
    Decidable (Undivided digest taskId artifacts s e) := by
  cases e <;> unfold Undivided <;> infer_instance

/-- The call that ran to completion last has left the decomposition of its artifact,
and a further call for it writes nothing. -/
def Sys.Converged (s : Sys) : Prop :=
  ∀ ext ∈ s.settled, Decomposed s.board taskId (deriveGenerationId digest ext) ext ∧
    (reconcileDecomposition digest taskId (some ext) ext).Always (Board.exec digest)
      (fun _ => (· = s.board)) (fun _ t => t = s.board) s.board

end

/-! ## Every run -/

/-- The settled artifact is decomposed; whatever a call in progress does, it leaves its
decomposition if it returns. -/
structure Sys.Inv (digest : Digest) (taskId : String) (artifacts : ScopeExtract → Prop) (s : Sys) :
    Prop where
  settled : ∀ ext ∈ s.settled, artifacts ext ∧
    Decomposed s.board taskId (deriveGenerationId digest ext) ext
  call : ∀ c ∈ s.call, artifacts c.1 ∧ c.2.Always (Board.exec digest) (fun _ _ => True)
    (fun o t => o.isSome → Decomposed t taskId (deriveGenerationId digest c.1) c.1) s.board

section

variable {digest : Digest} {taskId : String} {artifacts : ScopeExtract → Prop}

/-- Different artifacts have different generation ids. -/
def GenerationsDiffer (digest : Digest) (artifacts : ScopeExtract → Prop) : Prop :=
  ∀ ext other, artifacts ext → artifacts other →
    deriveGenerationId digest ext = deriveGenerationId digest other → ext.Same other

theorem board_of_read {program rest : Async ReconcileResult} {choice : Choice} {b t : Board}
    (read : writesNext program = false)
    (fire : program.step (Board.exec digest) choice b = some (t, rest)) : t = b := by
  cases program with
  | call op k =>
      obtain ⟨_, done, same⟩ := Option.map_eq_some_iff.mp fire
      cases same
      exact Board.exec_of_read read done
  | _ => cases fire

theorem Sys.Inv.begin {s : Sys} {ext : ScopeExtract} (hex : HexDigest digest)
    (differ : GenerationsDiffer digest artifacts) (inv : s.Inv digest taskId artifacts)
    (undivided : Undivided digest taskId artifacts s (.called ext)) :
    Sys.Inv digest taskId artifacts
      { s with call := some (ext, reconcileDecomposition digest taskId (some ext) ext) } := by
  refine ⟨inv.settled, ?_⟩
  rintro _ ⟨⟩
  refine ⟨undivided.1, ?_⟩
  by_cases fresh : ∀ i ∈ childrenOf s.board.issues.rows (s.board.listEdges digest) taskId,
      genOf i.body ≠ some (deriveGenerationId digest ext)
  · exact reconcile_fresh (fun i child => fresh i (mem_childrenOf.mpr child)) (fun _ => nofun)
      fun t _ decomposed _ => decomposed
  · -- a live child of the generation: it belongs to the settled decomposition
    obtain ⟨settled, is_settled⟩ := Option.isSome_iff_exists.mp (undivided.2.resolve_left fresh)
    obtain ⟨authored, decomposed⟩ := inv.settled settled is_settled
    push Not at fresh
    obtain ⟨i, mem, current⟩ := fresh
    have same : deriveGenerationId digest settled = deriveGenerationId digest ext :=
      Option.some.inj ((decomposed.genOf hex (mem_childrenOf.mp mem)).symm.trans current)
    have here : Decomposed s.board taskId (deriveGenerationId digest ext) ext :=
      (same ▸ decomposed).same (differ settled ext authored undivided.1 same)
    exact (here.idle hex).anywhere.mono fun _ t (unchanged : t = s.board) _ => unchanged ▸ here

theorem Sys.Inv.step {s t : Sys} {e : Event} (hex : HexDigest digest)
    (differ : GenerationsDiffer digest artifacts) (inv : s.Inv digest taskId artifacts)
    (undivided : Undivided digest taskId artifacts s e)
    (fire : s.step digest taskId e = some t) : t.Inv digest taskId artifacts := by
  cases e with
  | called ext =>
      simp only [Sys.step] at fire
      split at fire <;> cases fire
      exact inv.begin hex differ undivided
  | advance choice =>
      obtain ⟨⟨ext, program⟩, called, fire⟩ := Option.bind_eq_some_iff.mp fire
      obtain ⟨⟨board, rest⟩, moved, rfl⟩ := Option.map_eq_some_iff.mp fire
      obtain ⟨authored, always⟩ := inv.call _ called
      have always := always.step moved
      have kept : ∀ done ∈ (if writesNext program then none else s.settled), artifacts done ∧
          Decomposed board taskId (deriveGenerationId digest done) done := fun done settled => by
        split at settled
        · cases settled
        · rename_i read
          rw [board_of_read (Bool.eq_false_iff.mpr read) moved]
          exact inv.settled done settled
      dsimp only
      split
      · rename_i ended
        exact ⟨by rintro _ ⟨⟩; exact ⟨authored, always.of_outcome ended rfl⟩, nofun⟩
      · exact ⟨kept, nofun⟩
      · exact ⟨kept, by rintro _ ⟨⟩; exact ⟨authored, always⟩⟩
  | cutOff =>
      simp only [Sys.step] at fire
      split at fire <;> cases fire
      exact ⟨inv.settled, nofun⟩

/-- In every run whose calls are undivided, a call that runs to completion leaves the
decomposition of its artifact, and a further call for it writes nothing. -/
theorem decomposition_converges {board : Board} {s : Sys} (hex : HexDigest digest)
    (differ : GenerationsDiffer digest artifacts)
    (run : Steps (Sys.step digest taskId) (Undivided digest taskId artifacts) (Sys.init board) s) :
    s.Converged digest taskId := by
  have start : (Sys.init board).Inv digest taskId artifacts := ⟨nofun, nofun⟩
  have inv := run.invariant start fun _ _ _ inv undivided fire =>
    inv.step hex differ undivided fire
  exact fun ext settled => ⟨(inv.settled ext settled).2, (inv.settled ext settled).2.idle hex⟩

end

/-! ## Two runs -/

theorem sampleHashes_hex : sampleHashes.all (fun listed => listed.2.toList.all fun c =>
    c.isDigit || c ∈ ['a', 'b', 'c', 'd', 'e', 'f']) = true := by
  decide +kernel

theorem sampleDigest_hex : HexDigest sampleDigest := fun n text c mem => by
  have hex : ∀ listed ∈ sampleHashes, ∀ c ∈ listed.2.toList,
      c.isDigit ∨ c ∈ ['a', 'b', 'c', 'd', 'e', 'f'] := fun listed known c mem =>
    ((Bool.or_eq_true _ _).mp
      (List.all_eq_true.mp (List.all_eq_true.mp sampleHashes_hex listed known) c mem)).imp_right
        of_decide_eq_true
  rw [sampleDigest, String.toList_ofList] at mem
  have mem := List.mem_of_mem_take mem
  cases found : sampleHashes.find? (·.1 = text) with
  | none =>
      rw [found] at mem
      exact hex _ List.mem_cons_self c mem
  | some listed =>
      rw [found] at mem
      exact hex listed (List.mem_of_find?_eq_some found) c mem

def bothScopes (ext : ScopeExtract) : Prop := ext = twoSteps ∨ ext = oneStep

instance : DecidablePred bothScopes := fun _ => inferInstanceAs (Decidable (_ ∨ _))

theorem twoSteps_ne_oneStep :
    deriveGenerationId sampleDigest twoSteps ≠ deriveGenerationId sampleDigest oneStep := by
  decide +kernel

theorem bothScopes_differ : GenerationsDiffer sampleDigest bothScopes := by
  rintro ext other (rfl | rfl) (rfl | rfl) same
  · exact ⟨fun _ => Iff.rfl, fun _ => Iff.rfl⟩
  · exact absurd same twoSteps_ne_oneStep
  · exact absurd same.symm twoSteps_ne_oneStep
  · exact ⟨fun _ => Iff.rfl, fun _ => Iff.rfl⟩

/-- The next calls, with the new ids they may need. -/
def advances (ids : List String) : List Event :=
  ids.map fun id => .advance { newId := id }

/-- Two steps are decomposed; the second scope is cut off while it archives, and
decomposed by the next call; the first scope returns. -/
def scopesInTurn : List Event :=
  [.called twoSteps] ++ advances ["", "", "wg-1", "", "wg-2", "", ""] ++
    [.called oneStep] ++ advances ["", "", ""] ++ [.cutOff, .called oneStep] ++
    advances ["", "", "", "wg-3", ""] ++ [.called oneStep] ++ advances ["", ""]

theorem decomposition_converges_inTurn :
    ∃ s, Steps (Sys.step sampleDigest "wg-task") (Undivided sampleDigest "wg-task" bothScopes)
        (Sys.init taskBoard) s ∧
      s.settled = some oneStep ∧ s.Converged sampleDigest "wg-task" := by
  have replay : (runWhile (Sys.step sampleDigest "wg-task")
      (fun s e => decide (Undivided sampleDigest "wg-task" bothScopes s e)) (Sys.init taskBoard)
      scopesInTurn).any (fun s => s.settled = some oneStep) = true := by
    decide +kernel
  obtain ⟨s, reached, settled⟩ := (Option.any_eq_true _ _).mp replay
  have run := Steps.of_runWhile (fun _ _ guard => of_decide_eq_true guard) reached
  exact ⟨s, run, of_decide_eq_true settled,
    decomposition_converges sampleDigest_hex bothScopes_differ run⟩

/-- The first call is cut off after its first child, the second one returns at once. -/
def cutOffCall : List Event :=
  [.called twoSteps] ++ advances ["", "", "wg-1", ""] ++ [.cutOff, .called twoSteps] ++
    advances ["", ""]

/-- The second element has no issue, and a further call will not create one. -/
theorem cutOff_stays_partial :
    ∃ s, Steps (Sys.step sampleDigest "wg-task") AnyStep (Sys.init taskBoard) s ∧
      s.settled = some twoSteps ∧ ¬ s.Converged sampleDigest "wg-task" := by
  have replay : (runWhile (Sys.step sampleDigest "wg-task") (fun _ _ => true) (Sys.init taskBoard)
      cutOffCall).any (fun s => s.settled = some twoSteps ∧
        (childrenOf s.board.issues.rows (s.board.listEdges sampleDigest) "wg-task").all
          (·.body ≠ stamp "scope-2" (deriveGenerationId sampleDigest twoSteps))) = true := by
    decide +kernel
  obtain ⟨s, reached, facts⟩ := (Option.any_eq_true _ _).mp replay
  obtain ⟨settled, absent⟩ := of_decide_eq_true facts
  have run : Steps (Sys.step sampleDigest "wg-task") AnyStep (Sys.init taskBoard) s :=
    Steps.of_runWhile (fun _ _ _ => trivial) reached
  refine ⟨s, run, settled, fun converged => ?_⟩
  have second : "scope-2" ∈ twoSteps.authoredElements := by decide
  obtain ⟨i, child, _⟩ := (converged twoSteps settled).1.one "scope-2" second
  exact of_decide_eq_true (List.all_eq_true.mp absent i (mem_childrenOf.mpr child.1)) child.2

end Opensquid.Loop
