import Opensquid.Lib.Program
import Opensquid.Lib.Table
import Opensquid.WorkGraph.Types
import Mathlib.Data.List.Sort

/-!
# The work-graph facade

The store as its callers see it: a board of issues and edges, and calls that each
take effect at once. Issues are listed in the order of their creation, edges in the
order of their hashed keys.

A caller is a `Program` over these calls. What a call draws from outside is the
`Choice` of its environment: the id of a created issue and the token of a claim are
new ones, the clock is read as ISO text.
-/

namespace Opensquid.WorkGraph

open Opensquid.Lib

/-! ## The board -/

structure Issue where
  id : String
  title : String
  body : String
  status : IssueStatus
  claimToken : Option String := none
  claimExpiresAt : Option String := none
  wedgeReason : Option String := none
  archiveReason : Option String := none
  deriving DecidableEq, Repr

structure Edge where
  fromId : String
  toId : String
  type : EdgeType
  deriving DecidableEq, Repr

/-- What the key of an edge hashes: its type is not part of it. -/
def Edge.ends (e : Edge) : String × String := (e.fromId, e.toId)

/-- An edge joins two different issues that exist. -/
structure Board where
  issues : Table Issue.id
  edges : Table Edge.ends
  endpoints : ∀ e ∈ edges.rows, (issues.get e.fromId).isSome ∧ (issues.get e.toId).isSome
  noLoop : ∀ e ∈ edges.rows, e.fromId ≠ e.toId

namespace Board

def empty : Board := ⟨.empty, .empty, nofun, nofun⟩

def issue (b : Board) (id : String) : Option Issue := b.issues.get id

/-- The type of the edge between two issues. -/
def edge (b : Board) (fromId toId : String) : Option EdgeType :=
  (b.edges.get (fromId, toId)).map Edge.type

theorem mem_issues {b : Board} {i : Issue} : i ∈ b.issues.rows ↔ b.issue i.id = some i :=
  Table.mem_rows_iff

theorem mem_edges {b : Board} {e : Edge} : e ∈ b.edges.rows ↔ b.edge e.fromId e.toId = some e.type := by
  rw [Table.mem_rows_iff, edge]
  constructor
  · intro present
    rw [show (e.fromId, e.toId) = e.ends from rfl, present]
    rfl
  · intro typed
    obtain ⟨found, present, same⟩ := Option.map_eq_some_iff.mp typed
    have ends := Prod.ext_iff.mp (Table.key_of_get present)
    rw [Edge.ends, present, Option.some.injEq]
    cases found
    cases e
    cases same
    cases ends.1
    cases ends.2
    rfl

/-- Both ends of an edge exist, and they differ. -/
theorem ends_of_edge {b : Board} {fromId toId : String} {type : EdgeType}
    (typed : b.edge fromId toId = some type) :
    (b.issue fromId).isSome ∧ (b.issue toId).isSome ∧ fromId ≠ toId := by
  have mem : (⟨fromId, toId, type⟩ : Edge) ∈ b.edges.rows := mem_edges.mpr typed
  exact ⟨(b.endpoints _ mem).1, (b.endpoints _ mem).2, b.noLoop _ mem⟩

/-! ### Operations -/

/-- `UPDATE wg_issues SET f WHERE id = ?`. -/
def modify (b : Board) (id : String) (f : Issue → Issue) (keep : ∀ i, (f i).id = i.id) : Board where
  issues := b.issues.update id f fun i here => (keep i).trans here
  edges := b.edges
  endpoints e mem := by
    have known : ∀ k, (b.issues.get k).isSome → ((b.issues.update id f
        fun i here => (keep i).trans here).get k).isSome := fun k present => by
      by_cases same : k = id
      · subst same
        rw [Table.get_update_self, Option.isSome_map]
        exact present
      · rwa [Table.get_update_of_ne same]
    exact ⟨known _ (b.endpoints e mem).1, known _ (b.endpoints e mem).2⟩
  noLoop := b.noLoop

/-- The new issue of a `createIssue`. -/
def create (b : Board) (title body id : String) (new : b.issues.get id = none) : Board where
  issues := b.issues.add { id, title, body, status := .open } new
  edges := b.edges
  endpoints e mem := by
    have known : ∀ k, (b.issues.get k).isSome →
        ((b.issues.add { id, title, body, status := .open } new).get k).isSome :=
      fun k present => by
        have other : k ≠ id := fun same => by
          rw [same, new] at present
          cases present
        rwa [Table.get_add_of_ne other]
    exact ⟨known _ (b.endpoints e mem).1, known _ (b.endpoints e mem).2⟩
  noLoop := b.noLoop

/-- The edge between two issues, with its new type. -/
def putEdge (b : Board) (e : Edge) (ends : (b.issue e.fromId).isSome ∧ (b.issue e.toId).isSome)
    (noLoop : e.fromId ≠ e.toId) : Board where
  issues := b.issues
  edges := b.edges.put e
  endpoints x mem := by
    rcases Table.mem_put mem with rfl | old
    · exact ends
    · exact b.endpoints x old
  noLoop x mem := by
    rcases Table.mem_put mem with rfl | old
    · exact noLoop
    · exact b.noLoop x old

section

variable {b : Board} {id k : String} {f : Issue → Issue} {keep : ∀ i, (f i).id = i.id}
  {title body : String} {new : b.issues.get id = none} {e : Edge}
  {ends : (b.issue e.fromId).isSome ∧ (b.issue e.toId).isSome} {noLoop : e.fromId ≠ e.toId}

theorem issue_modify_self : (b.modify id f keep).issue id = (b.issue id).map f := by
  rw [issue, modify, Table.get_update_self]
  rfl

theorem issue_modify_of_ne (other : k ≠ id) : (b.modify id f keep).issue k = b.issue k := by
  rw [issue, modify, Table.get_update_of_ne other]
  rfl

theorem isSome_modify (present : (b.issue k).isSome) : ((b.modify id f keep).issue k).isSome := by
  by_cases same : k = id
  · subst same
    rwa [issue_modify_self, Option.isSome_map]
  · rwa [issue_modify_of_ne same]

theorem issue_create_self :
    (b.create title body id new).issue id = some { id, title, body, status := .open } := by
  have added : (b.issues.add { id, title, body, status := .open } new).get id = _ :=
    Table.get_add_self
  exact added

theorem issue_create_of_ne (other : k ≠ id) : (b.create title body id new).issue k = b.issue k := by
  rw [issue, create, Table.get_add_of_ne other]
  rfl

@[simp] theorem edge_modify (x y : String) : (b.modify id f keep).edge x y = b.edge x y := rfl

@[simp] theorem edge_create (x y : String) : (b.create title body id new).edge x y = b.edge x y :=
  rfl

@[simp] theorem issue_putEdge (x : String) : (b.putEdge e ends noLoop).issue x = b.issue x := rfl

theorem edge_putEdge_self : (b.putEdge e ends noLoop).edge e.fromId e.toId = some e.type :=
  congrArg (Option.map Edge.type) Table.get_put_self

theorem edge_putEdge_of_ne {x y : String} (other : (x, y) ≠ (e.fromId, e.toId)) :
    (b.putEdge e ends noLoop).edge x y = b.edge x y :=
  congrArg (Option.map Edge.type) (Table.get_put_of_ne other)

end

end Board

/-! ## Calls -/

structure IssuePatch where
  status : Option IssueStatus := none
  title : Option String := none
  body : Option String := none
  deriving DecidableEq, Repr

inductive WgCall
  | createIssue (title body : String)
  | getIssue (id : String)
  | listIssues
  | listEdges
  | listReady
  | updateIssue (id : String) (patch : IssuePatch)
  | addEdge (fromId toId : String) (type : EdgeType)
  | archiveIssue (id : String) (reason : Option String)
  | claimIssue (id : String)
  | releaseClaim (id : String) (expectedToken : Option String)
  | wedgeMark (id reason : String)
  deriving DecidableEq, Repr

/-- What a call resolves to; of a claim, whether it was won. -/
@[reducible] def WgCall.Reply : WgCall → Type
  | .createIssue .. => Issue
  | .getIssue _ => Option Issue
  | .listIssues | .listReady => List Issue
  | .listEdges => List Edge
  | .claimIssue _ => Bool
  | .updateIssue .. | .addEdge .. | .archiveIssue .. | .releaseClaim .. | .wedgeMark .. => Unit

/-- The call appends an op to the log. -/
def WgCall.writes : WgCall → Bool
  | .getIssue _ | .listIssues | .listEdges | .listReady => false
  | .createIssue .. | .updateIssue .. | .addEdge .. | .archiveIssue .. | .claimIssue _
  | .releaseClaim .. | .wedgeMark .. => true

/-- What the environment contributes to a call: the id of the created issue, the token
of the claim, the clock reading and the expiry of the claim. -/
structure Choice where
  newId : String := ""
  claimToken : String := ""
  now : String := ""
  expiresAt : String := ""
  deriving DecidableEq, Repr

/-- An asynchronous function over the facade. -/
abbrev Async := Program WgCall WgCall.Reply

/-! ### `wg.…` -/

namespace Wg

def createIssue (title body : String) : Async Issue := Program.await (WgCall.createIssue title body)
def getIssue (id : String) : Async (Option Issue) := Program.await (WgCall.getIssue id)
def listIssues : Async (List Issue) := Program.await WgCall.listIssues
def listEdges : Async (List Edge) := Program.await WgCall.listEdges
def listReady : Async (List Issue) := Program.await WgCall.listReady
def updateIssue (id : String) (patch : IssuePatch) : Async Unit :=
  Program.await (WgCall.updateIssue id patch)
def addEdge (fromId toId : String) (type : EdgeType) : Async Unit :=
  Program.await (WgCall.addEdge fromId toId type)
def archiveIssue (id : String) (reason : Option String) : Async Unit :=
  Program.await (WgCall.archiveIssue id reason)
def claimIssue (id : String) : Async Bool := Program.await (WgCall.claimIssue id)
def releaseClaim (id : String) (expectedToken : Option String) : Async Unit :=
  Program.await (WgCall.releaseClaim id expectedToken)
def wedgeMark (id reason : String) : Async Unit := Program.await (WgCall.wedgeMark id reason)

end Wg

/-! ### The effect of a call -/

def IssuePatch.apply (patch : IssuePatch) (i : Issue) : Issue :=
  { i with
    status := patch.status.getD i.status
    title := patch.title.getD i.title
    body := patch.body.getD i.body }

theorem IssuePatch.apply_id (patch : IssuePatch) (i : Issue) : (patch.apply i).id = i.id := rfl

/-- The claim is absent or has expired. -/
def Issue.unclaimed (i : Issue) (now : String) : Bool :=
  i.claimToken.isNone || i.claimExpiresAt.any (· ≤ now)

def Issue.claim (i : Issue) (choice : Choice) : Issue :=
  if i.status = .open ∧ i.unclaimed choice.now then
    { i with claimToken := some choice.claimToken, claimExpiresAt := some choice.expiresAt }
  else i

/-- An empty token releases whatever claim there is, as an absent one does. -/
def Issue.release (i : Issue) (expectedToken : Option String) : Issue :=
  let expected := expectedToken.getD ""
  if expected = "" ∨ i.claimToken = some expected then
    { i with claimToken := none, claimExpiresAt := none }
  else i

theorem Issue.claim_id (choice : Choice) (i : Issue) : (i.claim choice).id = i.id := by
  rw [Issue.claim]
  split <;> rfl

theorem Issue.release_id (expectedToken : Option String) (i : Issue) :
    (i.release expectedToken).id = i.id := by
  simp only [Issue.release]
  split <;> rfl

def Issue.archive (i : Issue) (reason : Option String) : Issue :=
  { i with status := .archived, archiveReason := some (reason.getD "") }

def Issue.wedge (i : Issue) (reason : String) : Issue := { i with wedgeReason := some reason }

theorem Issue.wedge_id (reason : String) (i : Issue) : (i.wedge reason).id = i.id := rfl

def IssueStatus.terminal : IssueStatus → Bool
  | .closed | .archived => true
  | .open | .inProgress => false

namespace Board

variable (digest : Digest)

def listEdges (b : Board) : List Edge :=
  b.edges.rows.insertionSort fun x y =>
    edgeKey digest x.fromId x.toId ≤ edgeKey digest y.fromId y.toId

/-- Some blocker of the issue is not terminal. -/
def blocked (b : Board) (id : String) : Bool :=
  b.edges.rows.any fun e => e.type = .blocks && e.toId = id &&
    (b.issue e.fromId).any fun blocker => !blocker.status.terminal

def listReady (b : Board) (now : String) : List Issue :=
  b.issues.rows.filter fun i =>
    i.status = .open && i.unclaimed now && i.wedgeReason.isNone && !b.blocked i.id

/-- An update of an existing issue; it throws when there is none. -/
def update (b : Board) (id : String) (f : Issue → Issue) (keep : ∀ i, (f i).id = i.id) :
    Board × Option Unit :=
  if (b.issue id).isSome then (b.modify id f keep, some ()) else (b, none)

def addEdge (b : Board) (e : Edge) : Board × Option Unit :=
  if valid : e.fromId ≠ e.toId ∧ (b.issue e.fromId).isSome ∧ (b.issue e.toId).isSome then
    (b.putEdge e valid.2 valid.1, some ())
  else (b, none)

/-- One call takes effect. `none`: the call does not admit the choice, since an id or a
token is new. The reply is `none` when the call throws. -/
def exec (call : WgCall) (choice : Choice) (b : Board) : Option (Board × Option call.Reply) :=
  match call with
  | .createIssue title body =>
      if new : b.issues.get choice.newId = none then
        some (b.create title body choice.newId new,
          some { id := choice.newId, title, body, status := .open })
      else none
  | .getIssue id => some (b, some (b.issue id))
  | .listIssues => some (b, some b.issues.rows)
  | .listEdges => some (b, some (b.listEdges digest))
  | .listReady => some (b, some (b.listReady choice.now))
  | .updateIssue id patch => some (b.update id patch.apply patch.apply_id)
  | .addEdge fromId toId type => some (b.addEdge ⟨fromId, toId, type⟩)
  | .archiveIssue id reason => some (b.update id (·.archive reason) fun _ => rfl)
  | .claimIssue id =>
      if b.issues.rows.any (·.claimToken = some choice.claimToken) then none
      else
        let (next, done) := b.update id (·.claim choice) (Issue.claim_id choice)
        some (next, done.map fun _ => (next.issue id).any (·.claimToken = some choice.claimToken))
  | .releaseClaim id expectedToken =>
      some (b.update id (·.release expectedToken) (Issue.release_id expectedToken))
  | .wedgeMark id reason => some (b.update id (·.wedge reason) (Issue.wedge_id reason))

theorem exec_of_read {digest : Digest} {call : WgCall} {choice : Choice} {b t : Board}
    {reply : Option call.Reply} (read : call.writes = false)
    (done : exec digest call choice b = some (t, reply)) : t = b := by
  cases call <;> cases read <;> cases done <;> rfl

theorem of_update {b t : Board} {id : String} {f : Issue → Issue} {keep : ∀ i, (f i).id = i.id}
    {done : Option Unit} (updated : b.update id f keep = (t, done)) :
    done.isSome ∧ (b.issue id).isSome ∧ t = b.modify id f keep ∨ done = none ∧ t = b := by
  rw [Board.update] at updated
  split at updated <;> cases updated
  · exact .inl ⟨rfl, ‹_›, rfl⟩
  · exact .inr ⟨rfl, rfl⟩

/-- A call that throws has changed nothing. -/
theorem exec_of_throw {digest : Digest} {call : WgCall} {choice : Choice} {b t : Board}
    (done : exec digest call choice b = some (t, none)) : t = b := by
  have update : ∀ {id f keep}, b.update id f keep = (t, none) → t = b := fun thrown => by
    rw [Board.update] at thrown
    split at thrown <;> cases thrown
    rfl
  cases call with
  | createIssue title body =>
      simp only [exec] at done
      split at done <;> cases done
  | addEdge fromId toId type =>
      simp only [exec, Board.addEdge] at done
      split at done <;> cases done
      rfl
  | updateIssue | archiveIssue | releaseClaim | wedgeMark => exact update (Option.some.inj done)
  | claimIssue id =>
      simp only [exec, Board.update] at done
      split at done
      · cases done
      · split at done <;> cases done
        rfl
  | _ => cases done

end Board

/-! ## Rules

What has to hold before a call for a condition to hold after it. -/

section

variable {digest : Digest} {cut : WgCall → Board → Prop} {b : Board}

theorem Wg.listIssues_always {post : Option (List Issue) → Board → Prop}
    (here : cut .listIssues b)
    (next : post (some b.issues.rows) b) :
    Wg.listIssues.Always (Board.exec digest) cut post b := by
  refine Program.Always.await here fun choice t reply done => ?_
  cases done
  exact next

theorem Wg.listEdges_always {post : Option (List Edge) → Board → Prop}
    (here : cut .listEdges b)
    (next : post (some (b.listEdges digest)) b) :
    Wg.listEdges.Always (Board.exec digest) cut post b := by
  refine Program.Always.await here fun choice t reply done => ?_
  cases done
  exact next

theorem Wg.createIssue_always {title body : String} {post : Option Issue → Board → Prop}
    (here : cut (.createIssue title body) b)
    (next : ∀ id, ∀ new : b.issues.get id = none,
      post (some { id, title, body, status := .open }) (b.create title body id new)) :
    (Wg.createIssue title body).Always (Board.exec digest) cut post b := by
  refine Program.Always.await here fun choice t reply done => ?_
  simp only [Board.exec] at done
  split at done <;> cases done
  exact next choice.newId ‹_›

theorem Wg.addEdge_always {fromId toId : String} {type : EdgeType}
    {post : Option Unit → Board → Prop} (here : cut (.addEdge fromId toId type) b)
    (thrown : post none b)
    (next : ∀ ends noLoop, post (some ()) (b.putEdge ⟨fromId, toId, type⟩ ends noLoop)) :
    (Wg.addEdge fromId toId type).Always (Board.exec digest) cut post b := by
  refine Program.Always.await here fun choice t reply done => ?_
  simp only [Board.exec, Board.addEdge] at done
  split at done <;> cases done
  · exact next _ _
  · exact thrown

theorem Wg.archiveIssue_always {id : String} {reason : Option String}
    {post : Option Unit → Board → Prop} (here : cut (.archiveIssue id reason) b)
    (thrown : b.issue id = none → post none b)
    (next : (b.issue id).isSome → post (some ()) (b.modify id (·.archive reason) fun _ => rfl)) :
    (Wg.archiveIssue id reason).Always (Board.exec digest) cut post b := by
  refine Program.Always.await here fun choice t reply done => ?_
  simp only [Board.exec, Board.update] at done
  split at done <;> cases done
  · exact next ‹_›
  · exact thrown (Option.not_isSome_iff_eq_none.mp ‹_›)

theorem Wg.updateIssue_always {id : String} {patch : IssuePatch}
    {post : Option Unit → Board → Prop} (here : cut (.updateIssue id patch) b)
    (thrown : b.issue id = none → post none b)
    (next : (b.issue id).isSome → post (some ()) (b.modify id patch.apply patch.apply_id)) :
    (Wg.updateIssue id patch).Always (Board.exec digest) cut post b := by
  refine Program.Always.await here fun choice t reply done => ?_
  simp only [Board.exec, Board.update] at done
  split at done <;> cases done
  · exact next ‹_›
  · exact thrown (Option.not_isSome_iff_eq_none.mp ‹_›)

end

end Opensquid.WorkGraph
