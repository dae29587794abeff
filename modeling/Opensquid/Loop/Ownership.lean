import Mathlib
import Opensquid.Loop.Decompose

/-!
# What a decomposition does to a shared board

`reconcileDecomposition` among other processes: whatever its calls reply, it archives
only issues it has read as children, links every issue it creates before it makes the
next one, and joins by `blocks` edges only issues it has linked (`reconcile_follows`).
So it links nothing but its own new issue, and no issue loses its owner
(`Progress.Fits.effect`).
-/

namespace Opensquid.Loop

open Opensquid.Lib Opensquid.WorkGraph

/-! ## Owners -/

/-- Some task has the issue as a child. -/
def Owned (b : Board) (id : String) : Prop := ∃ parent, b.edge parent id = some .parentChild

/-- Its test, over the edges. -/
def owned (b : Board) (id : String) : Bool :=
  b.edges.rows.any fun e => e.type = .parentChild && e.toId = id

theorem owned_iff {b : Board} {id : String} : owned b id = true ↔ Owned b id := by
  simp only [owned, List.any_eq_true, Bool.and_eq_true, decide_eq_true_eq, Board.mem_edges]
  constructor
  · rintro ⟨e, typed, child, rfl⟩
    exact ⟨e.fromId, child ▸ typed⟩
  · rintro ⟨parent, typed⟩
    exact ⟨⟨parent, id, .parentChild⟩, typed, rfl, rfl⟩

/-! ## The protocol -/

/-- How far a decomposition has come. -/
structure Progress where
  /-- The children of the task, as read. -/
  children : List String
  /-- The issue it has created and not linked yet. -/
  pending : Option String
  /-- The issues it has created and linked. -/
  linked : List String

def Progress.start : Progress := ⟨[], none, []⟩

/-- The issues it has created. -/
def Progress.created (g : Progress) : List String := g.pending.toList ++ g.linked

/-- The calls that a decomposition of the task may make. -/
def Progress.may (taskId : String) : WgCall → Progress → Prop
  | .listIssues, g | .listEdges, g | .createIssue _ _, g => g.pending = none
  | .archiveIssue id _, g => g.pending = none ∧ id ∈ g.children
  | .addEdge fromId toId .parentChild, g => fromId = taskId ∧ g.pending = some toId
  | .addEdge fromId toId .blocks, g => g.pending = none ∧ fromId ∈ g.linked ∧ toId ∈ g.linked
  | _, _ => False

def Progress.next (taskId : String) : (op : WgCall) → op.Reply → Progress → Progress
  | .listEdges, edges, g => { g with
      children := (edges.filter fun e => e.type = .parentChild && e.fromId = taskId).map (·.toId) }
  | .createIssue _ _, issue, g => { g with pending := some issue.id }
  | .addEdge _ toId .parentChild, _, g => { g with pending := none, linked := toId :: g.linked }
  | _, _, g => g

def decomposition (taskId : String) : Protocol WgCall WgCall.Reply Progress :=
  ⟨Progress.may taskId, Progress.next taskId⟩

section

variable {digest : Digest} {taskId gen : String} {g : Progress}

theorem createChild_follows {idOf : String → Option String} {el : String}
    {post : Option (String → Option String) → Progress → Prop} (idle : g.pending = none)
    (thrown : ∀ g, post none g)
    (next : ∀ id, post (some (Function.update idOf el (some id)))
      { g with pending := none, linked := id :: g.linked }) :
    (createChild taskId gen idOf el).Always (decomposition taskId).exec (decomposition taskId).may
      post g := by
  refine Program.Always.bind (Protocol.await idle (fun issue => ?_) (thrown g))
  exact Program.Always.bind (Protocol.await ⟨rfl, rfl⟩ (fun _ => next issue.id) (thrown _))

theorem autoDecompose_follows {artifact : Option ScopeExtract}
    {post : Option Unit → Progress → Prop} (idle : g.pending = none) (ended : ∀ o g, post o g) :
    (autoDecompose artifact taskId gen).Always (decomposition taskId).exec
      (decomposition taskId).may post g := by
  cases artifact with
  | none => exact ended _ g
  | some ext =>
      refine Program.Always.bind (Program.Always.foldEach
        (fun idOf _ g => g.pending = none ∧ ∀ el id, idOf el = some id → id ∈ g.linked)
        (fun idOf el _ g ⟨idle, known⟩ => ?_) (fun idOf g ⟨idle, known⟩ => ?_) ⟨idle, nofun⟩)
      · refine createChild_follows idle (ended _) fun id => ⟨rfl, fun k x at_k => ?_⟩
        by_cases same : k = el
        · subst same
          rw [Function.update_self, Option.some.injEq] at at_k
          exact at_k ▸ List.mem_cons_self
        · rw [Function.update_of_ne same] at at_k
          exact List.mem_cons_of_mem _ (known k x at_k)
      · refine Program.Always.forEach (fun _ h => h = g) (fun d _ h same => ?_)
          (fun h _ => ended _ h) rfl
        subst same
        rw [linkDep]
        split
        · rename_i x y at_x at_y
          exact Protocol.await ⟨idle, known _ x at_x, known _ y at_y⟩ (fun _ => rfl) (ended _ _)
        · exact rfl

theorem reconcile_follows {artifact : Option ScopeExtract} {ext : ScopeExtract} :
    (decomposition taskId).Follows (reconcileDecomposition digest taskId artifact ext) .start := by
  refine Program.Always.bind (Protocol.await rfl (fun issues => ?_) trivial)
  refine Program.Always.bind (Protocol.await rfl (fun edges => ?_) trivial)
  dsimp only
  split
  · trivial
  · have read : ∀ c ∈ (childrenOf issues edges taskId).filter
        (fun c => genOf c.body ≠ some (deriveGenerationId digest ext)),
        c.id ∈ (Progress.next taskId .listEdges edges .start).children := fun c mem => by
      obtain ⟨e, child, found⟩ := List.mem_filterMap.mp (List.mem_of_mem_filter mem)
      obtain ⟨same, _⟩ := Option.filter_eq_some_iff.mp found
      have here := List.find?_some same
      exact List.mem_map.mpr ⟨e, child, (of_decide_eq_true here).symm⟩
    refine Program.Always.bind (Program.Always.forEach
      (fun rest g => g.pending = none ∧ ∀ c ∈ rest, c.id ∈ g.children)
      (fun c rest g knows => ?_) (fun g knows => ?_) ⟨rfl, read⟩)
    · have allowed : Progress.may taskId (.archiveIssue c.id
          (some ("superseded by generation " ++ deriveGenerationId digest ext))) g :=
        ⟨knows.1, knows.2 c List.mem_cons_self⟩
      exact Protocol.await allowed
        (fun _ => ⟨knows.1, fun c' mem => knows.2 c' (List.mem_cons_of_mem _ mem)⟩) trivial
    · refine Program.Always.bind (autoDecompose_follows knows.1 fun o g => ?_)
      cases o <;> trivial

end

/-! ## Its effect -/

/-- The board bears out what a decomposition knows. -/
structure Progress.Fits (g : Progress) (b : Board) (taskId : String) : Prop where
  children : ∀ id ∈ g.children, Owned b id
  pending : ∀ id ∈ g.pending, ¬ Owned b id
  linked : ∀ id ∈ g.linked, ∀ parent, b.edge parent id = some .parentChild ↔ parent = taskId

/-- What one call of a decomposition leaves as it was. -/
structure Effect (b t : Board) (g : Progress) : Prop where
  present : ∀ id, (b.issue id).isSome → (t.issue id).isSome
  issue : ∀ id, (b.issue id).isSome → ¬ Owned b id → t.issue id = b.issue id
  owner : ∀ parent id, b.edge parent id = some .parentChild → t.edge parent id = some .parentChild
  foreign : ∀ parent id, id ∉ g.pending → t.edge parent id = some .parentChild →
    b.edge parent id = some .parentChild

theorem Effect.refl (b : Board) (g : Progress) : Effect b b g :=
  ⟨fun _ here => here, fun _ _ _ => rfl, fun _ _ here => here, fun _ _ _ here => here⟩

theorem Effect.owned {b t : Board} {g : Progress} {id : String} (effect : Effect b t g)
    (here : Owned b id) : Owned t id :=
  here.imp fun parent => effect.owner parent id

theorem Effect.unowned {b t : Board} {g : Progress} {id : String} (effect : Effect b t g)
    (foreign : id ∉ g.pending) (here : ¬ Owned b id) : ¬ Owned t id :=
  fun ⟨parent, typed⟩ => here ⟨parent, effect.foreign parent id foreign typed⟩

/-- What another decomposition knows stays true. -/
theorem Effect.fits {b t : Board} {g g' : Progress} {taskId : String} (effect : Effect b t g)
    (apart : ∀ id ∈ g'.created, id ∉ g.created) (fits : g'.Fits b taskId) : g'.Fits t taskId where
  children id mem := effect.owned (fits.children id mem)
  pending id mem := by
    have mine : id ∈ g'.created := List.mem_append_left _ (Option.mem_toList.mpr mem)
    exact effect.unowned
      (fun other => apart id mine (List.mem_append_left _ (Option.mem_toList.mpr other)))
      (fits.pending id mem)
  linked id mem parent := by
    have foreign : id ∉ g.pending := fun other =>
      apart id (List.mem_append_right _ mem) (List.mem_append_left _ (Option.mem_toList.mpr other))
    rw [← fits.linked id mem parent]
    exact ⟨effect.foreign parent id foreign, effect.owner parent id⟩

section

variable {digest : Digest} {taskId id : String} {b t : Board} {g : Progress}

theorem Effect.modify {f : Issue → Issue} {keep : ∀ i, (f i).id = i.id} (child : Owned b id) :
    Effect b (b.modify id f keep) g where
  present _ here := Board.isSome_modify here
  issue _ _ unowned := Board.issue_modify_of_ne fun same => unowned (same ▸ child)
  owner _ _ here := here
  foreign _ _ _ here := here

theorem Effect.create {title body : String} {new : b.issues.get id = none} :
    Effect b (b.create title body id new) g := by
  have other : ∀ k, (b.issue k).isSome → k ≠ id := fun k here same => by
    rw [same, Board.issue, new] at here
    cases here
  exact ⟨fun k here => by rwa [Board.issue_create_of_ne (other k here)],
    fun k here _ => Board.issue_create_of_ne (other k here),
    fun _ _ here => here, fun _ _ _ here => here⟩

/-- The new edge owns the pending issue, or is one between issues of which neither owns
the other. -/
theorem Effect.putEdge {e : Edge} {ends noLoop}
    (own : e.type = .parentChild → g.pending = some e.toId)
    (joins : e.type ≠ .parentChild → b.edge e.fromId e.toId ≠ some .parentChild) :
    Effect b (b.putEdge e ends noLoop) g := by
  refine ⟨fun _ here => here, fun _ _ _ => rfl, fun parent k typed => ?_, fun parent k foreign typed => ?_⟩
  · by_cases same : (parent, k) = (e.fromId, e.toId)
    · cases same
      rw [Board.edge_putEdge_self]
      by_contra kind
      exact joins (fun owns => kind (congrArg some owns)) typed
    · rwa [Board.edge_putEdge_of_ne same]
  · by_cases same : (parent, k) = (e.fromId, e.toId)
    · cases same
      rw [Board.edge_putEdge_self, Option.some.injEq] at typed
      exact absurd (own typed) foreign
    · rwa [Board.edge_putEdge_of_ne same] at typed

/-- A decomposition that has an issue to link links it next. -/
theorem Progress.may_of_pending {op : WgCall} (pending : g.pending = some id)
    (allowed : Progress.may taskId op g) : op = .addEdge taskId id .parentChild := by
  cases op with
  | addEdge fromId toId type =>
      cases type with
      | parentChild =>
          obtain ⟨rfl, here⟩ := allowed
          cases here.symm.trans pending
          rfl
      | blocks => cases pending.symm.trans allowed.1
      | discoveredFrom => exact allowed.elim
      | related => exact allowed.elim
  | listIssues | listEdges | createIssue =>
      cases pending.symm.trans allowed
  | archiveIssue => cases pending.symm.trans allowed.1
  | _ => exact allowed.elim

/-- It has a new issue to link only when it has created it. -/
theorem Progress.pending_of_next {op : WgCall} {choice : Choice} {reply : op.Reply}
    (pending : id ∈ (Progress.next taskId op reply g).pending)
    (done : Board.exec digest op choice b = some (t, some reply)) :
    id ∈ g.pending ∨ b.issue id = none := by
  cases op with
  | createIssue title body =>
      simp only [Board.exec] at done
      split at done <;> cases done
      cases pending
      exact .inr ‹_›
  | addEdge fromId toId type =>
      cases type with
      | parentChild => cases pending
      | blocks | discoveredFrom | related => exact .inl pending
  | _ => exact .inl pending

theorem Progress.Fits.linked_edge (fits : g.Fits b taskId) {x y : String} (at_x : x ∈ g.linked)
    (at_y : y ∈ g.linked) : b.edge x y ≠ some .parentChild := fun typed => by
  have task : x = taskId := (fits.linked y at_y x).mp typed
  exact (Board.ends_of_edge ((fits.linked x at_x taskId).mpr rfl)).2.2 task.symm

/-- One call of a decomposition: the effect on the board, and where it leads. A new
issue is one that was not there. -/
theorem Progress.Fits.effect {op : WgCall} {choice : Choice} {reply : Option op.Reply}
    (fits : g.Fits b taskId) (distinct : ∀ id ∈ g.pending, id ∉ g.linked)
    (present : ∀ id ∈ g.created, (b.issue id).isSome)
    (allowed : Progress.may taskId op g) (done : Board.exec digest op choice b = some (t, reply)) :
    Effect b t g ∧ ∀ r ∈ reply, (Progress.next taskId op r g).Fits t taskId ∧
      (∀ id ∈ (Progress.next taskId op r g).pending, id ∉ (Progress.next taskId op r g).linked) ∧
      ∀ id ∈ (Progress.next taskId op r g).created,
        (t.issue id).isSome ∧ (id ∈ g.created ∨ b.issue id = none) := by
  have kept : ∀ id ∈ g.created, (b.issue id).isSome ∧ (id ∈ g.created ∨ b.issue id = none) :=
    fun id mem => ⟨present id mem, .inl mem⟩
  cases op with
  | listIssues =>
      cases done
      exact ⟨.refl _ _, by rintro _ ⟨⟩; exact ⟨fits, distinct, kept⟩⟩
  | listEdges =>
      cases done
      refine ⟨.refl _ _, ?_⟩
      rintro _ ⟨⟩
      refine ⟨⟨fun id mem => ?_, fits.pending, fits.linked⟩, distinct, kept⟩
      obtain ⟨e, child, rfl⟩ := List.mem_map.mp mem
      obtain ⟨listed, typed⟩ := List.mem_filter.mp child
      have joined := mem_listEdges.mp listed
      rw [of_decide_eq_true (Bool.and_eq_true_iff.mp typed).1] at joined
      exact ⟨e.fromId, joined⟩
  | archiveIssue id reason =>
      simp only [Board.exec, Board.update] at done
      split at done <;> cases done
      · have effect : Effect b (b.modify id (·.archive reason) fun _ => rfl) g :=
          .modify (fits.children id allowed.2)
        refine ⟨effect, ?_⟩
        rintro _ ⟨⟩
        exact ⟨⟨fits.children, fits.pending, fits.linked⟩, distinct,
          fun k mem => ⟨effect.present k (present k mem), .inl mem⟩⟩
      · exact ⟨.refl _ _, by rintro _ ⟨⟩⟩
  | createIssue title body =>
      simp only [Board.exec] at done
      split at done <;> cases done
      rename_i new
      have effect : Effect b (b.create title body choice.newId new) g := .create
      have absent : b.issue choice.newId = none := new
      refine ⟨effect, ?_⟩
      rintro _ ⟨⟩
      refine ⟨⟨fits.children, ?_, fits.linked⟩, ?_, fun k mem => ?_⟩
      · rintro _ ⟨⟩ ⟨parent, typed⟩
        have there := (Board.ends_of_edge (b := b) typed).2.1
        rw [absent] at there
        cases there
      · rintro _ ⟨⟩ mem
        have there := present _ (List.mem_append_right _ mem)
        rw [absent] at there
        cases there
      · rcases List.mem_cons.mp mem with rfl | old
        · exact ⟨by rw [Board.issue_create_self]; rfl, .inr absent⟩
        · have mine : k ∈ g.created := List.mem_append_right _ old
          exact ⟨effect.present k (present k mine), .inl mine⟩
  | addEdge fromId toId type =>
      simp only [Board.exec, Board.addEdge] at done
      split at done <;> cases done
      · rename_i valid
        cases type with
        | parentChild =>
            obtain ⟨rfl, pending⟩ := allowed
            have effect : Effect b (b.putEdge ⟨fromId, toId, .parentChild⟩ valid.2 valid.1) g :=
              .putEdge (fun _ => pending) (absurd rfl)
            have mine : toId ∈ g.created := List.mem_append_left _ (by rw [pending]; exact List.mem_singleton_self _)
            refine ⟨effect, ?_⟩
            rintro _ ⟨⟩
            refine ⟨⟨fun k mem => effect.owned (fits.children k mem), by rintro _ ⟨⟩, fun k mem parent => ?_⟩,
              by rintro _ ⟨⟩, fun k mem => ?_⟩
            · rcases List.mem_cons.mp mem with rfl | old
              · constructor
                · intro typed
                  by_contra other
                  rw [Board.edge_putEdge_of_ne fun same => other (Prod.ext_iff.mp same).1] at typed
                  exact fits.pending k pending ⟨parent, typed⟩
                · rintro rfl
                  exact Board.edge_putEdge_self (e := ⟨parent, k, .parentChild⟩)
              · have other : k ≠ toId := fun same => distinct toId pending (same ▸ old)
                rw [Board.edge_putEdge_of_ne fun same => other (Prod.ext_iff.mp same).2]
                exact fits.linked k old parent
            · rcases List.mem_cons.mp mem with rfl | old
              · exact ⟨present k mine, .inl mine⟩
              · exact kept k (List.mem_append_right _ old)
        | blocks =>
            have apart := fits.linked_edge allowed.2.1 allowed.2.2
            have effect : Effect b (b.putEdge ⟨fromId, toId, .blocks⟩ valid.2 valid.1) g :=
              .putEdge (fun same => by cases same) fun _ => apart
            refine ⟨effect, ?_⟩
            rintro _ ⟨⟩
            have idle : ∀ id, id ∉ g.pending := fun id mem => by
              rw [allowed.1] at mem
              cases mem
            exact ⟨⟨fun k mem => effect.owned (fits.children k mem),
              fun k mem => absurd mem (idle k),
              fun k mem parent => (Iff.intro (effect.foreign parent k (idle k))
                (effect.owner parent k)).trans (fits.linked k mem parent)⟩, distinct, kept⟩
        | discoveredFrom => exact allowed.elim
        | related => exact allowed.elim
      · exact ⟨.refl _ _, by rintro _ ⟨⟩⟩
  | _ => exact allowed.elim

end

end Opensquid.Loop
