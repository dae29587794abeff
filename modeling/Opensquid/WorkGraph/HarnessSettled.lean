import Opensquid.WorkGraph.HarnessSync

/-!
# What the reconcile settles

A round of the sync for one task has four outcomes (`Synced`). From them follows, round by
round, what a pass keeps of closed and archived issues, when a second pass has nothing left
to do, and when the task list has nothing left to hear.
-/

namespace Opensquid.WorkGraph

open Opensquid.Lib

/-! ## Bindings -/

section

variable {m : HarnessMap} {project harnessId wgId : String} {b : HarnessBinding}

theorem lookup_bind_self (unbound : m.lookup b.project b.harnessTaskId = none) :
    (m.bind b).lookup b.project b.harnessTaskId = some b.wgIssueId := by
  have new : m.rows.get b.key = none := Option.map_eq_none_iff.mp unbound
  rw [HarnessMap.bind, dif_pos new]
  exact congrArg (Option.map (·.wgIssueId)) (@Table.get_add_self _ _ _ _ _ b new)

theorem lookup_bind_of_ne (other : (project, harnessId) ≠ b.key) :
    (m.bind b).lookup project harnessId = m.lookup project harnessId := by
  rw [HarnessMap.bind]
  split
  · rename_i new
    have same := @Table.get_add_of_ne _ _ _ _ m.rows b new _ other
    exact congrArg (Option.map (·.wgIssueId)) same
  · rfl

/-- A binding is for good. -/
theorem lookup_bind_of_bound (bound : m.lookup project harnessId = some wgId) :
    (m.bind b).lookup project harnessId = some wgId := by
  by_cases new : m.rows.get b.key = none
  · have other : (project, harnessId) ≠ b.key := fun same => by
      rw [HarnessMap.lookup, same, new] at bound
      cases bound
    rwa [lookup_bind_of_ne other]
  · rwa [HarnessMap.bind, dif_neg new]

theorem lookup_of_getByWgId (found : m.getByWgId project wgId = some harnessId) :
    m.lookup project harnessId = some wgId := by
  obtain ⟨row, here, rfl⟩ := Option.map_eq_some_iff.mp found
  have mem := List.mem_of_find?_eq_some here
  have fits := List.find?_some here
  simp only [Bool.and_eq_true, decide_eq_true_eq] at fits
  obtain ⟨rfl, rfl⟩ := fits
  exact congrArg (Option.map (·.wgIssueId)) (Table.mem_rows_iff.mp mem)

end

/-! ## One round -/

def Opens (t : HarnessTaskLike) : Prop := mapStatus t.status = some .open

def Closes (t : HarnessTaskLike) : Prop := mapStatus t.status = some .closed

/-- A round for the task writes nothing. -/
structure Settled (project : String) (w : HarnessWorld) (t : HarnessTaskLike) : Prop where
  bound : Opens t → w.map.lookup project t.id ≠ none
  status : ∀ target, mapStatus t.status = some target → ∀ x, w.map.lookup project t.id = some x →
    ∀ i, w.board.issue x = some i → i.status = .closed ∨ i.status = target.status

/-- The issue of an open task is not closed. -/
def Live (project : String) (w : HarnessWorld) (t : HarnessTaskLike) : Prop :=
  Opens t → ∀ x, w.map.lookup project t.id = some x → ∀ i, w.board.issue x = some i →
    i.status ≠ .closed

/-- The outcomes of a round. -/
inductive Synced (ids : NewIds) (project : String) (t : HarnessTaskLike) (w : HarnessWorld)
    (r : SyncResult) : HarnessWorld × SyncResult → Prop
  | idle (settled : Settled project w t) (live : Live project w t) : Synced ids project t w r (w, r)
  | created (opens : Opens t) (unbound : w.map.lookup project t.id = none) :
      Synced ids project t w r (materialize ids project t w, { r with created := r.created ++ [t.id] })
  | skipped {target : SyncTarget} {x : String} {i : Issue} (asks : mapStatus t.status = some target)
      (bound : w.map.lookup project t.id = some x) (present : w.board.issue x = some i)
      (closed : i.status = .closed) :
      Synced ids project t w r (w, { r with
        skippedClosed := r.skippedClosed ++ [x]
        staleOpenHarnessIds := r.staleOpenHarnessIds ++ if target = .open then [t.id] else [] })
  | updated {target : SyncTarget} {x : String} {i : Issue} (asks : mapStatus t.status = some target)
      (bound : w.map.lookup project t.id = some x) (present : w.board.issue x = some i)
      (live : i.status ≠ .closed) (differs : i.status ≠ target.status) :
      Synced ids project t w r (w.setStatus x target.status, { r with updated := r.updated ++ [x] })

section

variable {ids : NewIds} {project : String} {t : HarnessTaskLike} {w : HarnessWorld} {r : SyncResult}
  {tasks : List HarnessTaskLike}

theorem syncTask_synced : Synced ids project t w r (syncTask ids project t w r) := by
  rw [syncTask]
  split
  · rename_i unknown
    have none (target : SyncTarget) : mapStatus t.status ≠ some target := fun asks => by
      cases unknown.symm.trans asks
    exact .idle ⟨fun opens => absurd opens (none _), fun target asks => absurd asks (none _)⟩
      fun opens => absurd opens (none _)
  · rename_i target asks
    split
    · rename_i unbound
      have absent (x : String) : w.map.lookup project t.id ≠ some x := fun bound => by
        cases unbound.symm.trans bound
      split
      · rename_i opens
        subst opens
        exact .created asks unbound
      · rename_i closes
        exact .idle ⟨fun opens => absurd (Option.some.inj (asks.symm.trans opens)) closes,
          fun _ _ x bound => absurd bound (absent x)⟩ fun _ x bound => absurd bound (absent x)
    · rename_i x bound
      have isBound : Opens t → w.map.lookup project t.id ≠ none := fun _ => by
        rw [bound]
        exact Option.some_ne_none x
      split
      · rename_i missing
        have absent : ∀ x', w.map.lookup project t.id = some x' → ∀ i, w.board.issue x' ≠ some i :=
          fun x' bound' i present => by
            cases bound.symm.trans bound'
            cases missing.symm.trans present
        exact .idle ⟨isBound, fun _ _ x' bound' i present => absurd present (absent x' bound' i)⟩
          fun _ x' bound' i present => absurd present (absent x' bound' i)
      · rename_i issue present
        split
        · rename_i closed
          exact .skipped asks bound present closed
        · rename_i live
          split
          · rename_i differs
            exact .updated asks bound present live differs
          · rename_i same
            refine .idle ⟨isBound, fun target' asks' x' bound' i present' => ?_⟩
              fun _ x' bound' i present' => ?_
            · cases asks.symm.trans asks'
              cases bound.symm.trans bound'
              cases present.symm.trans present'
              exact .inr (not_not.mp same)
            · cases bound.symm.trans bound'
              cases present.symm.trans present'
              exact live

/-- What every round keeps holds after a pass. -/
theorem syncTasks_rule {inv : List HarnessTaskLike → HarnessWorld × SyncResult → Prop}
    (start : inv [] (w, r))
    (round : ∀ done t rest s u, tasks = done ++ t :: rest → inv done s →
      Synced ids project t s.1 s.2 u → inv (done ++ [t]) u) :
    inv tasks (syncTasks ids project tasks w r) := by
  have go : ∀ rest done w r, tasks = done ++ rest → inv done (w, r) →
      inv tasks (syncTasks ids project rest w r) := by
    intro rest
    induction rest with
    | nil =>
        intro done w r all here
        rw [all, List.append_nil]
        exact here
    | cons t rest ih =>
        intro done w r all here
        refine ih (done ++ [t]) _ _ ?_ (round done t rest _ _ all here syncTask_synced)
        rw [all, List.append_assoc, List.singleton_append]
  exact go tasks [] w r rfl start

/-! ### The board after a round -/

theorem issue_setStatus {x id : String} {status : IssueStatus} : (w.setStatus x status).board.issue id =
    if id = x then (w.board.issue id).map fun i => { i with status } else w.board.issue id := by
  split
  · rename_i same
    subst same
    rw [HarnessWorld.setStatus, Board.issue_modify_self]
    rfl
  · rename_i other
    rw [HarnessWorld.setStatus, Board.issue_modify_of_ne other]

/-- An existing issue is not a new one. -/
theorem ne_pick {id : String} {i : Issue} (present : w.board.issue id = some i) : id ≠ ids.pick w := by
  rintro rfl
  cases (ids.fresh w).symm.trans present

theorem issue_materialize_of_present {id : String} {i : Issue} (present : w.board.issue id = some i) :
    (materialize ids project t w).board.issue id = some i :=
  (Board.issue_create_of_ne (ne_pick present)).trans present

theorem lookup_materialize_self (unbound : w.map.lookup project t.id = none) :
    (materialize ids project t w).map.lookup project t.id = some (ids.pick w) :=
  @lookup_bind_self w.map ⟨project, t.id, ids.pick w⟩ unbound

theorem lookup_materialize_of_ne {h : String} (other : h ≠ t.id) :
    (materialize ids project t w).map.lookup project h = w.map.lookup project h :=
  lookup_bind_of_ne fun same => other (Prod.ext_iff.mp same).2

/-- What a pass does to bindings and to issues that no listed task is bound to. -/
structure Grown (w v : HarnessWorld) : Prop where
  bindings : ∀ p h x, w.map.lookup p h = some x → v.map.lookup p h = some x
  closed : ∀ id i, w.board.issue id = some i → i.status = .closed →
    ∃ j, v.board.issue id = some j ∧ j.status = .closed

theorem Grown.refl (w : HarnessWorld) : Grown w w :=
  ⟨fun _ _ _ bound => bound, fun _ i present closed => ⟨i, present, closed⟩⟩

theorem Grown.trans {u v : HarnessWorld} (first : Grown w u) (second : Grown u v) : Grown w v where
  bindings p h x bound := second.bindings p h x (first.bindings p h x bound)
  closed id i present closed := by
    obtain ⟨j, there, closed⟩ := first.closed id i present closed
    exact second.closed id j there closed

theorem Synced.grown {u : HarnessWorld × SyncResult} (synced : Synced ids project t w r u) :
    Grown w u.1 := by
  cases synced with
  | idle => exact .refl w
  | skipped => exact .refl w
  | created =>
      exact ⟨fun _ _ _ bound => lookup_bind_of_bound bound,
        fun _ i present closed => ⟨i, issue_materialize_of_present present, closed⟩⟩
  | @updated target x i asks bound present live =>
      refine ⟨fun _ _ _ bound => bound, fun id j here closed => ⟨j, ?_, closed⟩⟩
      have other : id ≠ x := fun same => by
        subst same
        cases present.symm.trans here
        exact live closed
      rwa [issue_setStatus, if_neg other]

theorem sync_grown : Grown w (syncHarnessToWorkgraph ids project tasks w).1 :=
  @syncTasks_rule ids project w {} tasks (fun _ s => Grown w s.1) (.refl w)
    fun _ _ _ _ _ _ grown synced => grown.trans synced.grown

/-- An issue that no listed task is bound to is left as it is. -/
theorem unlisted_kept {id : String} {i : Issue} (present : w.board.issue id = some i)
    (unlisted : ∀ t ∈ tasks, mapStatus t.status ≠ none → w.map.lookup project t.id ≠ some id) :
    (syncHarnessToWorkgraph ids project tasks w).1.board.issue id = some i := by
  have kept := @syncTasks_rule ids project w {} tasks (fun _ s => s.1.board.issue id = some i ∧
    ∀ t ∈ tasks, mapStatus t.status ≠ none → s.1.map.lookup project t.id ≠ some id)
    ⟨present, unlisted⟩ fun done t rest s u all ⟨present, unlisted⟩ synced => ?_
  · exact kept.1
  · have mem : t ∈ tasks := all ▸ List.mem_append_right _ List.mem_cons_self
    cases synced with
    | idle => exact ⟨present, unlisted⟩
    | skipped => exact ⟨present, unlisted⟩
    | created opens unbound =>
        refine ⟨issue_materialize_of_present present, fun d listed known => ?_⟩
        by_cases same : d.id = t.id
        · rw [same, lookup_materialize_self unbound]
          exact fun picked => ne_pick present (Option.some.inj picked).symm
        · rw [lookup_materialize_of_ne same]
          exact unlisted d listed known
    | @updated target x j asks bound =>
        refine ⟨?_, unlisted⟩
        have other : id ≠ x := fun same => unlisted t mem (by rw [asks]; exact Option.some_ne_none _)
          (same ▸ bound)
        rwa [issue_setStatus, if_neg other]

/-! ## Creates -/

/-- A pass creates an issue only for a task that has no binding, and binds it. -/
theorem created_once : (syncHarnessToWorkgraph ids project tasks w).2.created.Nodup ∧
    ∀ h ∈ (syncHarnessToWorkgraph ids project tasks w).2.created, w.map.lookup project h = none ∧
      (syncHarnessToWorkgraph ids project tasks w).1.map.lookup project h ≠ none := by
  refine (@syncTasks_rule ids project w {} tasks (fun _ s => Grown w s.1 ∧ s.2.created.Nodup ∧
    ∀ h ∈ s.2.created, w.map.lookup project h = none ∧ s.1.map.lookup project h ≠ none)
    ⟨.refl w, List.nodup_nil, fun _ mem => absurd mem List.not_mem_nil⟩ ?_).2
  rintro done t rest ⟨v, r⟩ u all ⟨grown, once, bound⟩ synced
  refine ⟨grown.trans synced.grown, ?_⟩
  have still : ∀ h, v.map.lookup project h ≠ none → u.1.map.lookup project h ≠ none := fun h here => by
    obtain ⟨x, here⟩ := Option.ne_none_iff_exists'.mp here
    rw [synced.grown.bindings _ _ _ here]
    exact Option.some_ne_none x
  cases synced with
  | idle => exact ⟨once, bound⟩
  | skipped => exact ⟨once, bound⟩
  | updated => exact ⟨once, bound⟩
  | created opens unbound =>
      refine ⟨List.nodup_append.mpr ⟨once, List.nodup_singleton _, ?_⟩, fun h mem => ?_⟩
      · rintro h old _ new rfl
        exact (bound h old).2 (List.mem_singleton.mp new ▸ unbound)
      · rcases List.mem_append.mp mem with old | new
        · exact ⟨(bound h old).1, still h (bound h old).2⟩
        · cases List.mem_singleton.mp new
          refine ⟨?_, ?_⟩
          · by_contra known
            obtain ⟨x, known⟩ := Option.ne_none_iff_exists'.mp known
            cases unbound.symm.trans (grown.bindings _ _ _ known)
          · rw [lookup_materialize_self unbound]
            exact Option.some_ne_none _

/-! ## A second pass -/

/-- After a pass every open task is bound. -/
theorem opens_bound : ∀ t ∈ tasks, Opens t →
    (syncHarnessToWorkgraph ids project tasks w).1.map.lookup project t.id ≠ none := by
  refine @syncTasks_rule ids project w {} tasks
    (fun done s => ∀ t ∈ done, Opens t → s.1.map.lookup project t.id ≠ none)
    (fun _ mem => absurd mem List.not_mem_nil) fun done t rest s u all bound synced d mem opens => ?_
  rcases List.mem_append.mp mem with old | new
  · obtain ⟨x, here⟩ := Option.ne_none_iff_exists'.mp (bound d old opens)
    rw [synced.grown.bindings _ _ _ here]
    exact Option.some_ne_none x
  · cases List.mem_singleton.mp new
    cases synced with
    | idle settled => exact settled.bound opens
    | created _ unbound =>
        rw [lookup_materialize_self unbound]
        exact Option.some_ne_none _
    | skipped _ bound =>
        rw [bound]
        exact Option.some_ne_none _
    | updated _ bound =>
        rw [HarnessWorld.setStatus, bound]
        exact Option.some_ne_none _

/-- With every open task bound, a pass creates nothing. -/
theorem created_of_bound (bound : ∀ t ∈ tasks, Opens t → w.map.lookup project t.id ≠ none) :
    (syncHarnessToWorkgraph ids project tasks w).2.created = [] := by
  refine (@syncTasks_rule ids project w {} tasks (fun _ s => Grown w s.1 ∧ s.2.created = [])
    ⟨.refl w, rfl⟩ ?_).2
  rintro done t rest ⟨v, r⟩ u all ⟨grown, none⟩ synced
  refine ⟨grown.trans synced.grown, ?_⟩
  cases synced with
  | idle => exact none
  | skipped => exact none
  | updated => exact none
  | created opens unbound =>
      have mem : t ∈ tasks := all ▸ List.mem_append_right _ List.mem_cons_self
      obtain ⟨x, here⟩ := Option.ne_none_iff_exists'.mp (bound t mem opens)
      cases unbound.symm.trans (grown.bindings _ _ _ here)

/-- With every task settled, a pass writes nothing. -/
theorem sync_of_settled (settled : ∀ t ∈ tasks, Settled project w t) :
    (syncHarnessToWorkgraph ids project tasks w).1 = w ∧
      (syncHarnessToWorkgraph ids project tasks w).2.updated = [] := by
  refine @syncTasks_rule ids project w {} tasks (fun _ s => s.1 = w ∧ s.2.updated = []) ⟨rfl, rfl⟩ ?_
  rintro done t rest ⟨v, r⟩ u all ⟨rfl, none⟩ synced
  have here := settled t (all ▸ List.mem_append_right _ List.mem_cons_self)
  cases synced with
  | idle => exact ⟨rfl, none⟩
  | skipped => exact ⟨rfl, none⟩
  | created opens unbound => exact absurd unbound (here.bound opens)
  | updated asks bound present live differs =>
      rcases here.status _ asks _ bound _ present with closed | same
      · exact absurd closed live
      · exact absurd same differs

/-- No entry of a task without a binding is terminal and followed by an open one. -/
def Ordered (project : String) (w : HarnessWorld) (tasks : List HarnessTaskLike) : Prop :=
  tasks.Pairwise fun a b => a.id = b.id → Closes a → Opens b → w.map.lookup project a.id ≠ none

/-- A round settles its task and unsettles none before it. -/
theorem Settled.round {d : HarnessTaskLike} {u : HarnessWorld × SyncResult}
    (settled : Settled project w d) (synced : Synced ids project t w r u)
    (ordered : d.id = t.id → Closes d → Opens t → w.map.lookup project d.id ≠ none) :
    Settled project u.1 d := by
  cases synced with
  | idle => exact settled
  | skipped => exact settled
  | created opens unbound =>
      have same : ∀ x, w.map.lookup project d.id = some x → d.id ≠ t.id := fun x bound same => by
        rw [same, unbound] at bound
        cases bound
      refine ⟨fun opens' => ?_, fun target asks x bound i present => ?_⟩
      · obtain ⟨x, bound⟩ := Option.ne_none_iff_exists'.mp (settled.bound opens')
        rw [lookup_materialize_of_ne (same x bound), bound]
        exact Option.some_ne_none x
      · by_cases new : d.id = t.id
        · rw [new, lookup_materialize_self unbound] at bound
          cases bound
          cases (Board.issue_create_self).symm.trans present
          cases target with
          | «open» => exact .inr rfl
          | closed => exact absurd (new ▸ unbound) (ordered new asks opens)
        · rw [lookup_materialize_of_ne new] at bound
          have other : x ≠ ids.pick w := fun picked => ids.unbound w project d.id (picked ▸ bound)
          exact settled.status target asks x bound i
            ((Board.issue_create_of_ne other).symm.trans present)
  | @updated target x j asks bound present live differs =>
      refine ⟨settled.bound, fun target' asks' x' bound' i there => ?_⟩
      rw [issue_setStatus] at there
      split at there
      · rename_i same
        subst same
        rw [present] at there
        cases there
        rcases settled.status target' asks' x' bound' j present with closed | fits
        · exact absurd closed live
        · cases target with
          | closed => exact .inl rfl
          | «open» =>
              cases target' with
              | «open» => exact .inr rfl
              | closed => exact absurd fits live
      · exact settled.status target' asks' x' bound' i there

theorem Synced.settled {u : HarnessWorld × SyncResult} (synced : Synced ids project t w r u) :
    Settled project u.1 t := by
  cases synced with
  | idle settled => exact settled
  | created opens unbound =>
      refine ⟨fun _ => ?_, fun target asks x bound i present => ?_⟩
      · rw [lookup_materialize_self unbound]
        exact Option.some_ne_none _
      · rw [lookup_materialize_self unbound] at bound
        cases bound
        cases (Board.issue_create_self).symm.trans present
        cases opens.symm.trans asks
        exact .inr rfl
  | skipped asks bound present closed =>
      refine ⟨fun _ => by rw [bound]; exact Option.some_ne_none _, fun _ _ x bound' i there => ?_⟩
      cases bound.symm.trans bound'
      cases present.symm.trans there
      exact .inl closed
  | updated asks bound present =>
      refine ⟨fun _ => by rw [HarnessWorld.setStatus, bound]; exact Option.some_ne_none _,
        fun target' asks' x bound' i there => ?_⟩
      cases asks.symm.trans asks'
      cases bound.symm.trans bound'
      rw [issue_setStatus, if_pos rfl, present] at there
      cases there
      exact .inr rfl

/-- A pass over an ordered list settles it. -/
theorem settled_of_ordered (ordered : Ordered project w tasks) :
    ∀ t ∈ tasks, Settled project (syncHarnessToWorkgraph ids project tasks w).1 t := by
  refine (@syncTasks_rule ids project w {} tasks
    (fun done s => Grown w s.1 ∧ ∀ t ∈ done, Settled project s.1 t)
    ⟨.refl w, fun _ mem => absurd mem List.not_mem_nil⟩ ?_).2
  rintro done t rest ⟨v, r⟩ u all ⟨grown, settled⟩ synced
  refine ⟨grown.trans synced.grown, fun d mem => ?_⟩
  rcases List.mem_append.mp mem with old | new
  · refine (settled d old).round synced fun same closes opens => ?_
    have inOrder := ordered
    rw [Ordered, all, List.pairwise_append] at inOrder
    have known := inOrder.2.2 d old t List.mem_cons_self same closes opens
    obtain ⟨x, known⟩ := Option.ne_none_iff_exists'.mp known
    rw [grown.bindings _ _ _ known]
    exact Option.some_ne_none x
  · cases List.mem_singleton.mp new
    exact synced.settled

end

end Opensquid.WorkGraph
