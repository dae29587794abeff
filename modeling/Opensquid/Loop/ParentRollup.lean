import Opensquid.Loop.Decompose

/-!
# Parent roll-up

After a child is closed, `rollUpParents` walks up its `parent-child` edges and closes
every parent of which no child is drivable. A child is drivable while it is open and not
wedged; whether the parent itself is wedged is not looked at. `RollsUp` says which
parents these are without the walk; the walk closes no others (`rollUpParents_always`).
-/

namespace Opensquid.Loop

open Opensquid.Lib Opensquid.WorkGraph

def isDrivable (i : Issue) : Bool := i.status = .open && i.wedgeReason.isNone

section

variable (issues : List Issue) (edges : List Edge)

/-- The issue in the walk's copy of the board, where the parents it has closed are closed. -/
def byId (closed : List String) (id : String) : Option Issue :=
  (issues.find? (·.id = id)).map fun i => if i.id ∈ closed then { i with status := .closed } else i

def kidsOf (closed : List String) (pid : String) : List Issue :=
  (edges.filter fun e => e.type = .parentChild && e.fromId = pid).filterMap fun e =>
    byId issues closed e.toId

def parentsOf (cid : String) : List String :=
  (edges.filter fun e => e.type = .parentChild && e.toId = cid).map (·.fromId)

/-- One parent of the walk; `up` walks on from it. -/
def closeParent (up : List String → String → Async (List String)) (closed : List String)
    (pid : String) : Async (List String) :=
  match byId issues closed pid with
  | none => return closed
  | some parent =>
      if parent.status.terminal then return closed
      else
        let kids := kidsOf issues edges closed pid
        if kids ≠ [] ∧ kids.all (fun k => !isDrivable k) then do
          Wg.updateIssue pid { status := some .closed }
          up (closed ++ [pid]) pid
        else return closed

/-- The walk up from a child. Every parent it goes on from is closed before, so that it
is never deeper than there are issues (`walk_always`). -/
def walk : Nat → List String → String → Async (List String)
  | 0, _, _ => .throw
  | depth + 1, closed, childId =>
      Program.foldEach (closeParent issues edges (walk depth)) closed (parentsOf edges childId)

end

def rollUpParents (closedChildId : String) : Async (List String) := do
  let issues ← Wg.listIssues
  let edges ← Wg.listEdges
  walk issues edges (issues.length + 1) [] closedChildId

/-! ## Which parents -/

/-- The parents that roll up when the child is closed: not terminal, above the child or
above one that rolls up, and without a drivable child that does not. -/
inductive RollsUp (b : Board) (child : String) : String → Prop
  | first {id : String} {i : Issue} (present : b.issue id = some i) (live : i.status.terminal = false)
      (parent : b.edge id child = some .parentChild)
      (kids : ∀ k j, b.edge id k = some .parentChild → b.issue k = some j → isDrivable j = true →
        RollsUp b child k) : RollsUp b child id
  | next {id k : String} {i : Issue} (present : b.issue id = some i)
      (live : i.status.terminal = false) (parent : b.edge id k = some .parentChild)
      (below : RollsUp b child k)
      (kids : ∀ k j, b.edge id k = some .parentChild → b.issue k = some j → isDrivable j = true →
        RollsUp b child k) : RollsUp b child id

theorem RollsUp.live {b : Board} {child id : String} (rolls : RollsUp b child id) :
    ∃ i, b.issue id = some i ∧ i.status.terminal = false := by
  cases rolls with
  | first present live _ _ => exact ⟨_, present, live⟩
  | next present live _ _ _ => exact ⟨_, present, live⟩

/-- The board after the issues are closed. -/
structure ClosedOn (b t : Board) (closed : List String) : Prop where
  issue : ∀ id, t.issue id =
    (b.issue id).map fun i => if i.id ∈ closed then { i with status := .closed } else i
  edge : ∀ x y, t.edge x y = b.edge x y

/-! ## The walk -/

section

variable {digest : Digest} {b t : Board} {child : String}

theorem mem_kidsOf {closed : List String} {pid : String} {j : Issue} :
    j ∈ kidsOf b.issues.rows (b.listEdges digest) closed pid ↔
      ∃ k, b.edge pid k = some .parentChild ∧ byId b.issues.rows closed k = some j := by
  simp only [kidsOf, List.mem_filterMap, List.mem_filter, Bool.and_eq_true, decide_eq_true_eq,
    mem_listEdges]
  constructor
  · rintro ⟨e, ⟨typed, kind, rfl⟩, seen⟩
    exact ⟨e.toId, kind ▸ typed, seen⟩
  · rintro ⟨k, typed, seen⟩
    exact ⟨⟨pid, k, .parentChild⟩, ⟨typed, rfl, rfl⟩, seen⟩

theorem mem_parentsOf {cid pid : String} :
    pid ∈ parentsOf (b.listEdges digest) cid ↔ b.edge pid cid = some .parentChild := by
  simp only [parentsOf, List.mem_map, List.mem_filter, Bool.and_eq_true, decide_eq_true_eq,
    mem_listEdges]
  constructor
  · rintro ⟨e, ⟨typed, kind, rfl⟩, rfl⟩
    exact kind ▸ typed
  · intro typed
    exact ⟨⟨pid, cid, .parentChild⟩, ⟨typed, rfl, rfl⟩, rfl⟩

theorem byId_eq {closed : List String} {id : String} : byId b.issues.rows closed id =
    (b.issue id).map fun i => if i.id ∈ closed then { i with status := .closed } else i := rfl

/-- What the walk has done. -/
structure Walked (b : Board) (child : String) (closed : List String) (t : Board) : Prop where
  rolls : ∀ id ∈ closed, RollsUp b child id
  once : closed.Nodup
  board : ClosedOn b t closed

theorem Walked.length_le {closed : List String} (walked : Walked b child closed t) :
    closed.length ≤ b.issues.rows.length := by
  have known : closed ⊆ b.issues.rows.map (·.id) := fun id mem => by
    obtain ⟨i, present, _⟩ := (walked.rolls id mem).live
    have key : i.id = id := Table.key_of_get present
    exact List.mem_map.mpr ⟨i, Table.mem_of_get present, key⟩
  calc closed.length ≤ (b.issues.rows.map (·.id)).length :=
        (List.subperm_of_subset walked.once known).length_le
    _ = b.issues.rows.length := List.length_map ..

/-- A parent that the walk closes rolls up. -/
theorem Walked.closes {closed : List String} {pid k : String} {parent : Issue}
    (walked : Walked b child closed t) (here : byId b.issues.rows closed pid = some parent)
    (live : ¬ parent.status.terminal = true) (above : b.edge pid k = some .parentChild)
    (below : k = child ∨ k ∈ closed)
    (idle : (kidsOf b.issues.rows (b.listEdges digest) closed pid).all (fun k => !isDrivable k)) :
    RollsUp b child pid ∧ pid ∉ closed := by
  rw [byId_eq] at here
  obtain ⟨i, present, rfl⟩ := Option.map_eq_some_iff.mp here
  have key : i.id = pid := Table.key_of_get present
  have new : i.id ∉ closed := fun mem => live (by rw [if_pos mem]; rfl)
  rw [if_neg new] at live
  have kids : ∀ k j, b.edge pid k = some .parentChild → b.issue k = some j → isDrivable j = true →
      RollsUp b child k := fun k j edge there drivable => by
    have key' : j.id = k := Table.key_of_get there
    by_cases mem : j.id ∈ closed
    · exact key' ▸ walked.rolls j.id mem
    · have seen : byId b.issues.rows closed k = some j := by
        rw [byId_eq, there, Option.map_some, if_neg mem]
      have not := List.all_eq_true.mp idle j (mem_kidsOf.mpr ⟨k, edge, seen⟩)
      rw [drivable] at not
      cases not
  refine ⟨?_, key ▸ new⟩
  rcases below with rfl | mem
  · exact .first present (Bool.eq_false_iff.mpr live) above kids
  · exact .next present (Bool.eq_false_iff.mpr live) above (walked.rolls k mem) kids

theorem Walked.close {closed : List String} {pid : String} (walked : Walked b child closed t)
    (rolls : RollsUp b child pid) (new : pid ∉ closed) :
    Walked b child (closed ++ [pid])
      (t.modify pid (IssuePatch.apply { status := some .closed }) (IssuePatch.apply_id _)) := by
  refine ⟨fun id mem => ?_, ?_, fun id => ?_, walked.board.edge⟩
  · rcases List.mem_append.mp mem with old | here
    · exact walked.rolls id old
    · cases List.mem_singleton.mp here
      exact rolls
  · exact List.nodup_append.mpr ⟨walked.once, List.nodup_singleton _, fun x mem y here same => by
      cases List.mem_singleton.mp here
      exact new (same ▸ mem)⟩
  · by_cases same : id = pid
    · subst same
      rw [Board.issue_modify_self, walked.board.issue]
      cases present : b.issue id with
      | none => rfl
      | some i =>
          have key : i.id = id := Table.key_of_get present
          simp only [Option.map_some, key, new, if_false, List.mem_append, List.mem_singleton,
            or_true, if_true]
          subst key
          rfl
    · rw [Board.issue_modify_of_ne same, walked.board.issue]
      cases present : b.issue id with
      | none => rfl
      | some i =>
          have key : i.id = id := Table.key_of_get present
          simp only [Option.map_some, key, List.mem_append, List.mem_singleton, same, or_false]

/-- The walk from a child closes parents that roll up, and it does not run out of depth. -/
theorem walk_always {depth : Nat} {closed : List String} {start : String}
    (walked : Walked b child closed t) (below : start = child ∨ start ∈ closed)
    (deep : b.issues.rows.length < closed.length + depth) :
    (walk b.issues.rows (b.listEdges digest) depth closed start).Always (Board.exec digest)
      (fun _ t => ∃ closed, Walked b child closed t)
      (fun o t => ∃ closed', o = some closed' ∧ Walked b child closed' t ∧ closed ⊆ closed') t := by
  induction depth generalizing closed t start with
  | zero => exact absurd walked.length_le (Nat.not_le_of_lt deep)
  | succ depth ih =>
      refine Program.Always.foldEach
        (fun closed' rest t => Walked b child closed' t ∧ closed ⊆ closed' ∧
          ∀ pid ∈ rest, b.edge pid start = some .parentChild)
        (fun closed' pid rest t ⟨walked', more, above⟩ => ?_)
        (fun closed' t ⟨walked', more, _⟩ => ⟨closed', rfl, walked', more⟩)
        ⟨walked, List.Subset.refl _, fun pid mem => mem_parentsOf.mp mem⟩
      have rest_above := fun p mem => above p (List.mem_cons_of_mem pid mem)
      rw [closeParent]
      split
      · exact ⟨walked', more, rest_above⟩
      · rename_i parent here
        split
        · exact ⟨walked', more, rest_above⟩
        · rename_i live
          dsimp only
          split
          · rename_i idle
            obtain ⟨rolls, new⟩ := walked'.closes here live (above pid List.mem_cons_self)
              (below.imp_right fun mem => more mem) idle.2
            have present : (t.issue pid).isSome := by
              obtain ⟨i, there, _⟩ := rolls.live
              rw [walked'.board.issue, there]
              rfl
            refine Program.Always.bind (Wg.updateIssue_always ⟨_, walked'⟩
              (fun absent => ?_) fun _ => ?_)
            · rw [absent] at present
              cases present
            · have grown : closed.length ≤ closed'.length :=
                (List.subperm_of_subset walked.once more).length_le
              refine (ih (walked'.close rolls new)
                (.inr (List.mem_append_right _ (List.mem_singleton_self _))) ?_).mono ?_
              · rw [List.length_append, List.length_singleton]
                omega
              · rintro _ u ⟨closed'', rfl, walked'', more'⟩
                exact ⟨walked'', fun id mem => more' (List.mem_append_left _ (more mem)), rest_above⟩
          · exact ⟨walked', more, rest_above⟩

/-- Whatever `rollUpParents` closes rolls up, also when it fails on the way. -/
theorem rollUpParents_always :
    (rollUpParents child).Always (Board.exec digest)
      (fun _ t => ∃ closed, Walked b child closed t)
      (fun o t => ∃ closed, o = some closed ∧ Walked b child closed t) b := by
  have nothing : Walked b child [] b := by
    refine ⟨nofun, List.nodup_nil, fun id => ?_, fun _ _ => rfl⟩
    simp only [List.not_mem_nil, if_false, Option.map_id_fun', id_eq]
  refine Program.Always.bind (Wg.listIssues_always ⟨_, nothing⟩ ?_)
  refine Program.Always.bind (Wg.listEdges_always ⟨_, nothing⟩ ?_)
  refine (walk_always nothing (.inl rfl) ?_).mono ?_
  · rw [List.length_nil]
    omega
  · rintro _ t ⟨closed, rfl, walked, _⟩
    exact ⟨closed, rfl, walked⟩

end

end Opensquid.Loop
