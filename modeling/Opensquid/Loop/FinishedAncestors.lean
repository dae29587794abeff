import Mathlib.Logic.Relation
import Opensquid.Lib.Steps
import Opensquid.Loop.ParentRollup

/-!
# Which ancestors are finished

`rollUpParents` over any work-graph: edges may form cycles and their ends need not exist. It is
meant to close the ancestors of which every known child is closed, archived or wedged. Its test
is that no child is open and unwedged, so it also closes a parent over a child in progress
(`closed_over_in_progress`). `rollsUp_iff` says on which graphs it does what it is meant to.
-/

namespace Opensquid.Loop

open Opensquid.Lib Opensquid.WorkGraph

/-! ## Work-graphs -/

structure Graph where
  issues : Table Issue.id
  edges : List Edge

/-- The loop is done with the issue. -/
def isFinished (i : Issue) : Bool := i.status.terminal || i.wedgeReason.isSome

namespace Graph

def issue (g : Graph) (id : String) : Option Issue := g.issues.get id

/-- The known children. -/
def kids (g : Graph) (pid : String) : List Issue :=
  (g.edges.filter fun e => e.type = .parentChild && e.fromId = pid).filterMap fun e =>
    g.issue e.toId

def parents (g : Graph) (cid : String) : List String := parentsOf g.edges cid

def live (g : Graph) (id : String) : Bool := (g.issue id).any fun i => !i.status.terminal

/-- The parent is to be closed. -/
def ready (g : Graph) (pid : String) : Bool :=
  g.live pid && g.kids pid ≠ [] && (g.kids pid).all isFinished

/-- The test that `rollUpParents` makes. -/
def idle (g : Graph) (pid : String) : Bool :=
  g.live pid && g.kids pid ≠ [] && (g.kids pid).all fun k => !isDrivable k

def update (g : Graph) (id : String) (patch : IssuePatch) : Graph where
  issues := g.issues.update id patch.apply fun i here => (patch.apply_id i).trans here
  edges := g.edges

def close (g : Graph) (id : String) : Graph := g.update id { status := some .closed }

/-- The calls of `rollUpParents`. -/
def exec (call : WgCall) (_ : Unit) (g : Graph) : Option (Graph × Option call.Reply) :=
  match call with
  | .listIssues => some (g, some g.issues.rows)
  | .listEdges => some (g, some g.edges)
  | .updateIssue id patch =>
      some (if (g.issue id).isSome then (g.update id patch, some ()) else (g, none))
  | _ => none

/-- `id` is above the child by edges between a parent and its child. -/
def Above (g : Graph) : String → String → Prop := Relation.TransGen fun cid pid => pid ∈ g.parents cid

/-- The intended walk: the next parent is closed if it is ready, and its parents come next. -/
def climb (s : Graph × List String) (_ : Unit) : Option (Graph × List String) :=
  match s.2 with
  | [] => none
  | pid :: rest =>
      some (if s.1.ready pid then (s.1.close pid, s.1.parents pid ++ rest) else (s.1, rest))

end Graph

/-- What `rollUpParents` may write: it closes an ancestor that is to be closed at that moment. -/
def RollUpCall (g : Graph) (child : String) (call : WgCall) (t : Graph) : Prop :=
  match call with
  | .listIssues | .listEdges => True
  | .updateIssue pid patch =>
      patch = { status := some .closed } ∧ g.Above child pid ∧ t.ready pid = true
  | _ => False

/-- What holds at the end: the returned ids are distinct, they are what was written, and no
parent of the child or of a closed one is left to be closed. -/
structure RolledUp (g : Graph) (child : String) (closed : List String) (t : Graph) : Prop where
  once : closed.Nodup
  edges : t.edges = g.edges
  issue : ∀ id, t.issue id =
    (g.issue id).map fun i => if i.id ∈ closed then { i with status := .closed } else i
  done : ∀ cid, cid = child ∨ cid ∈ closed → ∀ pid ∈ t.parents cid, t.ready pid = false

def RollsUpExactly (g : Graph) (child : String) : Prop :=
  (rollUpParents child).Always Graph.exec (RollUpCall g child)
    (fun o t => ∃ closed, o = some closed ∧ RolledUp g child closed t) g

/-- Where the intended walk comes to a parent without drivable children, they are all closed,
archived or wedged. -/
def NoneInProgress (g : Graph) (child : String) : Prop :=
  ∀ t pid rest, Steps Graph.climb AnyStep (g, g.parents child) (t, pid :: rest) →
    t.idle pid = true → t.ready pid = true

/-! ## The walk on a copy of the graph -/

/-- The graph after the issues are closed. -/
structure Wrote (g : Graph) (closed : List String) (t : Graph) : Prop where
  edges : t.edges = g.edges
  issue : ∀ id, t.issue id = byId g.issues.rows closed id

namespace Graph

section

variable {g t : Graph} {child pid p : String} {closed : List String}

theorem issue_close (g : Graph) (pid id : String) : (g.close pid).issue id =
    (g.issue id).map fun i => if i.id = pid then { i with status := .closed } else i :=
  @Table.get_update _ _ _ _ g.issues pid id _ fun i here => (IssuePatch.apply_id _ i).trans here

theorem live_iff : g.live pid = true ↔ ∃ i, g.issue pid = some i ∧ i.status.terminal = false := by
  rw [live, Option.any_eq_true]
  simp only [Bool.not_eq_true']

theorem idle_of_ready (ready : g.ready pid = true) : g.idle pid = true := by
  unfold Graph.ready at ready
  unfold idle
  simp only [Bool.and_eq_true, List.all_eq_true] at ready ⊢
  refine ⟨ready.1, fun k mem => ?_⟩
  have finished := ready.2 k mem
  unfold isFinished at finished
  unfold isDrivable
  cases status : k.status <;> cases wedged : k.wedgeReason <;> simp_all [IssueStatus.terminal]

theorem ready_close_self : (g.close pid).ready pid = false := by
  have dead : (g.close pid).live pid = false := by
    refine Bool.eq_false_iff.mpr fun live => ?_
    obtain ⟨i, present, running⟩ := live_iff.mp live
    rw [issue_close] at present
    obtain ⟨j, there, rfl⟩ := Option.map_eq_some_iff.mp present
    have key : j.id = pid := Table.key_of_get (t := g.issues) there
    rw [if_pos key] at running
    cases running
  unfold Graph.ready
  rw [dead]
  rfl

/-- Closing an issue makes none of the others ready but its parents. -/
theorem ready_close (unready : g.ready p = false) :
    p ∈ g.parents pid ∨ (g.close pid).ready p = false := by
  by_cases above : p ∈ g.parents pid
  · exact .inl above
  refine .inr (Bool.eq_false_iff.mpr fun ready => ?_)
  have kids : (g.close pid).kids p = g.kids p := by
    refine List.filterMap_congr fun e mem => ?_
    have known := List.mem_filter.mp mem
    have kind := Bool.and_eq_true_iff.mp known.2
    have other : e.toId ≠ pid := fun same => above (List.mem_map.mpr
      ⟨e, List.mem_filter.mpr ⟨known.1, by simpa [same] using kind.1⟩, of_decide_eq_true kind.2⟩)
    rw [issue_close]
    cases present : g.issue e.toId with
    | none => rfl
    | some i =>
        have key : i.id = e.toId := Table.key_of_get present
        rw [Option.map_some, if_neg (key ▸ other)]
  have alive : (g.close pid).live p = true → g.live p = true := by
    intro live
    obtain ⟨i, present, running⟩ := live_iff.mp live
    rw [issue_close] at present
    obtain ⟨j, there, rfl⟩ := Option.map_eq_some_iff.mp present
    split at running
    · cases running
    · exact live_iff.mpr ⟨j, there, running⟩
  unfold Graph.ready at ready unready
  rw [kids] at ready
  simp only [Bool.and_eq_true] at ready
  rw [ready.2, alive ready.1.1, ready.1.2] at unready
  cases unready

end

end Graph

section

variable {g t : Graph} {child pid : String} {closed todo rest : List String}

theorem Wrote.parents (wrote : Wrote g closed t) (cid : String) : t.parents cid = g.parents cid := by
  rw [Graph.parents, wrote.edges]
  rfl

theorem Wrote.close (wrote : Wrote g closed t) : Wrote g (closed ++ [pid]) (t.close pid) := by
  refine ⟨wrote.edges, fun id => ?_⟩
  rw [Graph.issue_close, wrote.issue, byId, byId, Option.map_map]
  refine Option.map_congr fun i _ => ?_
  by_cases old : i.id ∈ closed
  · have mem := List.mem_append_left [pid] old
    simp only [Function.comp_apply, if_pos old, if_pos mem, ite_self]
  · by_cases same : i.id = pid
    · have mem : i.id ∈ closed ++ [pid] := List.mem_append_right closed (List.mem_singleton.mpr same)
      simp only [Function.comp_apply, if_neg old, if_pos mem, if_pos same]
    · have new : i.id ∉ closed ++ [pid] := fun mem =>
        (List.mem_append.mp mem).elim old fun here => same (List.mem_singleton.mp here)
      simp only [Function.comp_apply, if_neg old, if_neg new, if_neg same]

theorem closeParent_eq (wrote : Wrote g closed t) (up : List String → String → Async (List String)) :
    closeParent g.issues.rows g.edges up closed pid =
      if t.idle pid = true then do
        Wg.updateIssue pid { status := some .closed }
        up (closed ++ [pid]) pid
      else return closed := by
  have kids : kidsOf g.issues.rows g.edges closed pid = t.kids pid := by
    rw [kidsOf, Graph.kids, wrote.edges]
    exact List.filterMap_congr fun e _ => (wrote.issue e.toId).symm
  rw [closeParent, ← wrote.issue]
  unfold Graph.idle Graph.live
  cases present : t.issue pid with
  | none => rfl
  | some parent =>
      dsimp only
      rw [kids, Option.any_some]
      cases terminal : parent.status.terminal with
      | true => rfl
      | false => simp [Bool.and_eq_true]

/-- Where the walk is: the ids it has closed, and the parents it has yet to come to. -/
structure Climbing (g : Graph) (child : String) (closed todo : List String) (t : Graph) : Prop where
  reached : Steps Graph.climb AnyStep (g, g.parents child) (t, todo)
  wrote : Wrote g closed t
  once : closed.Nodup
  known : ∀ id ∈ closed, ∃ i, g.issue id = some i
  above : ∀ p ∈ todo, g.Above child p
  done : ∀ cid, cid = child ∨ cid ∈ closed → ∀ p ∈ g.parents cid, p ∈ todo ∨ t.ready p = false

namespace Climbing

theorem start : Climbing g child [] (g.parents child) g := by
  refine ⟨.refl, ⟨rfl, fun id => ?_⟩, List.nodup_nil, nofun, fun p mem => .single mem, ?_⟩
  · simp only [byId, List.not_mem_nil, if_false, Option.map_id_fun', id_eq]
    rfl
  · rintro cid (rfl | mem) p parent
    · exact .inl parent
    · cases mem

theorem length_le (climbing : Climbing g child closed todo t) :
    closed.length ≤ g.issues.rows.length := by
  have known : closed ⊆ g.issues.rows.map (·.id) := fun id mem => by
    obtain ⟨i, present⟩ := climbing.known id mem
    have key : i.id = id := Table.key_of_get present
    exact List.mem_map.mpr ⟨i, Table.mem_of_get present, key⟩
  calc closed.length ≤ (g.issues.rows.map (·.id)).length :=
        (List.subperm_of_subset climbing.once known).length_le
    _ = g.issues.rows.length := List.length_map ..

theorem climb_skip (unready : t.ready pid = false) :
    Graph.climb (t, pid :: rest) () = some (t, rest) := by
  simp only [Graph.climb, unready, Bool.false_eq_true, if_false]

theorem climb_close (ready : t.ready pid = true) :
    Graph.climb (t, pid :: rest) () = some (t.close pid, t.parents pid ++ rest) := by
  simp only [Graph.climb, ready, if_true]

theorem skip (climbing : Climbing g child closed (pid :: rest) t) (unready : t.ready pid = false) :
    Climbing g child closed rest t := by
  refine ⟨.tail climbing.reached trivial (climb_skip unready), climbing.wrote, climbing.once,
    climbing.known, fun p mem => climbing.above p (List.mem_cons_of_mem pid mem), ?_⟩
  intro cid before p parent
  rcases climbing.done cid before p parent with mem | settled
  · rcases List.mem_cons.mp mem with rfl | later
    · exact .inr unready
    · exact .inl later
  · exact .inr settled

/-- An issue that is ready is known, and it has not been closed. -/
theorem fresh (climbing : Climbing g child closed todo t) (ready : t.ready pid = true) :
    pid ∉ closed ∧ ∃ i, g.issue pid = some i := by
  unfold Graph.ready at ready
  simp only [Bool.and_eq_true] at ready
  obtain ⟨i, present, running⟩ := Graph.live_iff.mp ready.1.1
  rw [climbing.wrote.issue, byId] at present
  obtain ⟨j, there, rfl⟩ := Option.map_eq_some_iff.mp present
  have key : j.id = pid := Table.key_of_get (t := g.issues) there
  refine ⟨fun mem => ?_, j, there⟩
  rw [if_pos (key.symm ▸ mem)] at running
  cases running

theorem close (climbing : Climbing g child closed (pid :: rest) t) (ready : t.ready pid = true) :
    Climbing g child (closed ++ [pid]) (g.parents pid ++ rest) (t.close pid) := by
  obtain ⟨new, known⟩ := climbing.fresh ready
  have here := climbing.above pid List.mem_cons_self
  have up := climbing.wrote.parents pid
  refine ⟨?_, climbing.wrote.close, ?_, ?_, ?_, ?_⟩
  · exact up ▸ .tail climbing.reached trivial (climb_close ready)
  · exact List.nodup_append.mpr ⟨climbing.once, List.nodup_singleton _, fun x mem y last same => by
      cases List.mem_singleton.mp last
      exact new (same ▸ mem)⟩
  · intro id mem
    rcases List.mem_append.mp mem with old | last
    · exact climbing.known id old
    · exact List.mem_singleton.mp last ▸ known
  · intro p mem
    rcases List.mem_append.mp mem with parent | later
    · exact .tail here parent
    · exact climbing.above p (List.mem_cons_of_mem pid later)
  · intro cid before p parent
    have split : (cid = child ∨ cid ∈ closed) ∨ cid = pid := by
      rcases before with rfl | mem
      · exact .inl (.inl rfl)
      · exact (List.mem_append.mp mem).imp .inr List.mem_singleton.mp
    rcases split with before | rfl
    · rcases climbing.done cid before p parent with mem | settled
      · rcases List.mem_cons.mp mem with rfl | later
        · exact .inr Graph.ready_close_self
        · exact .inl (List.mem_append_right _ later)
      · have next : p ∈ t.parents pid ∨ (t.close pid).ready p = false := Graph.ready_close settled
        exact next.imp_left fun above => List.mem_append_left _ (up ▸ above)
    · exact .inl (List.mem_append_left _ parent)

end Climbing

theorem issue_isSome_of_ready (ready : t.ready pid = true) : (t.issue pid).isSome := by
  unfold Graph.ready at ready
  simp only [Bool.and_eq_true] at ready
  obtain ⟨i, present, _⟩ := Graph.live_iff.mp ready.1.1
  rw [present]
  rfl

/-- Where none is in progress, the walk from a child or a closed parent closes what is ready. -/
theorem walk_rolls (none_in_progress : NoneInProgress g child) {depth : Nat} {start : String}
    (climbing : Climbing g child closed (g.parents start ++ todo) t)
    (deep : g.issues.rows.length < closed.length + depth) :
    (walk g.issues.rows g.edges depth closed start).Always Graph.exec (RollUpCall g child)
      (fun o t => ∃ closed', o = some closed' ∧ Climbing g child closed' todo t ∧
        closed.length ≤ closed'.length) t := by
  induction depth generalizing closed todo t start with
  | zero => exact absurd climbing.length_le (Nat.not_le_of_lt deep)
  | succ depth ih =>
      refine Program.Always.foldEach
        (fun closed' rest t => Climbing g child closed' (rest ++ todo) t ∧
          closed.length ≤ closed'.length)
        (fun closed' pid rest t ⟨climbing', more⟩ => ?_)
        (fun closed' t ⟨climbing', more⟩ => ⟨closed', rfl, climbing', more⟩)
        ⟨climbing, Nat.le_refl _⟩
      rw [closeParent_eq climbing'.wrote]
      by_cases ready : t.ready pid = true
      · rw [if_pos (Graph.idle_of_ready ready)]
        have above := climbing'.above pid List.mem_cons_self
        refine Program.Always.bind (Program.Always.await ⟨rfl, above, ready⟩
          fun _ u reply done => ?_)
        simp only [Graph.exec, issue_isSome_of_ready ready, if_true, Option.some.injEq,
          Prod.mk.injEq] at done
        obtain ⟨rfl, rfl⟩ := done
        refine (ih (climbing'.close ready) ?_).mono ?_
        · rw [List.length_append, List.length_singleton]
          omega
        · rintro _ u ⟨closed'', rfl, climbing'', more'⟩
          rw [List.length_append] at more'
          exact ⟨climbing'', by omega⟩
      · have unready := Bool.eq_false_iff.mpr ready
        rw [if_neg fun idle => ready (none_in_progress t pid _ climbing'.reached idle)]
        exact ⟨climbing'.skip unready, more⟩

/-- Where the walk closes only what is ready, so does all of the climb that it makes. -/
theorem good_of_walk {depth : Nat} {start : String} {post : List String → Graph → Prop}
    (climbing : Climbing g child closed (g.parents start ++ todo) t)
    (always : (walk g.issues.rows g.edges depth closed start).Always Graph.exec
      (RollUpCall g child) (fun o t => ∃ closed', o = some closed' ∧ post closed' t) t)
    {u : Graph} (run : Steps Graph.climb AnyStep (t, g.parents start ++ todo) (u, pid :: rest)) :
    (u.idle pid = true → u.ready pid = true) ∨
      ∃ closed' v, Climbing g child closed' todo v ∧ post closed' v ∧
        Steps Graph.climb AnyStep (v, todo) (u, pid :: rest) := by
  induction depth generalizing closed todo t start post with
  | zero => obtain ⟨_, ⟨⟩, _⟩ := always
  | succ depth ih =>
      rw [walk] at always
      change (Program.foldEach _ closed (g.parents start)).Always _ _ _ t at always
      generalize g.parents start = ps at climbing always run
      induction ps generalizing closed t with
      | nil =>
          obtain ⟨_, eq, kept⟩ := always
          cases eq
          exact .inr ⟨closed, t, climbing, kept, run⟩
      | cons p ps ihps =>
          have first := Program.Always.of_bind_returns always
          rw [closeParent_eq climbing.wrote] at first
          by_cases idle : t.idle p = true
          · rw [if_pos idle] at first
            have ready : t.ready p = true := first.1.2.2
            rcases run.eq_or_head with same | ⟨⟨⟩, next, -, fire, run'⟩
            · cases same
              exact .inl fun _ => ready
            · rw [List.cons_append, Climbing.climb_close ready] at fire
              cases fire
              rw [climbing.wrote.parents] at run'
              have up := first.2 () (t.close p) (some ()) (by
                simp only [Graph.exec, issue_isSome_of_ready ready, if_true]
                rfl)
              rcases ih (climbing.close ready) up run' with good | ⟨closed', v, climbing', kept, run''⟩
              · exact .inl good
              · exact ihps climbing' kept run''
          · rw [if_neg idle] at first
            obtain ⟨_, ⟨⟩, later⟩ := first
            have unready : t.ready p = false :=
              Bool.eq_false_iff.mpr fun ready => idle (Graph.idle_of_ready ready)
            rcases run.eq_or_head with same | ⟨⟨⟩, next, -, fire, run'⟩
            · cases same
              exact .inl fun here => (idle here).elim
            · rw [List.cons_append, Climbing.climb_skip unready] at fire
              cases fire
              exact ihps (climbing.skip unready) later run'

/-- `rollUpParents` closes exactly the finished ancestors where no ancestor that it comes to
has a child in progress besides children that are done with. -/
theorem rollsUp_iff : RollsUpExactly g child ↔ NoneInProgress g child := by
  constructor
  · intro always t pid rest run idle
    have walked := ((always.2 () g (some g.issues.rows) rfl).2 () g (some g.edges) rfl)
    have start : Climbing g child [] (g.parents child ++ []) g := by
      rw [List.append_nil]
      exact .start
    have run' : Steps Graph.climb AnyStep (g, g.parents child ++ []) (t, pid :: rest) := by
      rwa [List.append_nil]
    rcases good_of_walk start walked run' with good | ⟨_, v, _, _, finished⟩
    · exact good idle
    · rcases finished.eq_or_head with same | ⟨⟨⟩, next, -, fire, _⟩
      · cases same
      · cases fire
  · intro none_in_progress
    refine Program.Always.bind (Program.Always.await trivial fun _ t reply done => ?_)
    cases done
    refine Program.Always.bind (Program.Always.await trivial fun _ t reply done => ?_)
    cases done
    have start : Climbing g child [] (g.parents child ++ []) g := by
      rw [List.append_nil]
      exact .start
    refine (walk_rolls none_in_progress start ?_).mono ?_
    · rw [List.length_nil]
      omega
    · rintro _ t ⟨closed, rfl, climbing, _⟩
      refine ⟨closed, rfl, climbing.once, climbing.wrote.edges, climbing.wrote.issue, ?_⟩
      intro cid before p parent
      rw [climbing.wrote.parents] at parent
      exact (climbing.done cid before p parent).resolve_left (List.not_mem_nil)

end

/-- One child is closed, the other in progress. -/
def halfDone : Graph where
  issues :=
    { rows := [⟨"P", "", "", .open, none, none, none, none⟩,
        ⟨"C", "", "", .closed, none, none, none, none⟩,
        ⟨"D", "", "", .inProgress, none, none, none, none⟩]
      distinct := by decide }
  edges := [⟨"P", "C", .parentChild⟩, ⟨"P", "D", .parentChild⟩]

theorem closed_over_in_progress : (halfDone.issue "C").map (·.status) = some .closed ∧
    ¬ RollsUpExactly halfDone "C" := by
  refine ⟨by decide, fun always => ?_⟩
  have walked := (always.2 () halfDone (some halfDone.issues.rows) rfl).2 () halfDone
    (some halfDone.edges) rfl
  have start : Climbing halfDone "C" [] (halfDone.parents "C") halfDone := .start
  change (Program.foldEach _ [] ["P"]).Always _ _ _ _ at walked
  have first := Program.Always.of_bind walked
  rw [closeParent_eq start.wrote, if_pos (by decide)] at first
  have ready : halfDone.ready "P" = true := first.1.2.2
  revert ready
  decide

end Opensquid.Loop
