import Opensquid.Lib.Whitespace
import Opensquid.WorkGraph.Facade

/-!
# Decomposing a task into issues

A scope artifact lists elements and dependencies. `autoDecompose` creates one issue
for each element, stamped with the element and the artifact's generation id, links it
to the task, and joins the issues by `blocks` edges. `reconcileDecomposition` does
nothing when a live child of the task carries the generation already; else it archives
the live children and decomposes.

The calls to the work-graph are separate and durable. The generation counts as
decomposed as soon as one child is linked.
-/

namespace Opensquid.Loop

open Opensquid.Lib Opensquid.WorkGraph

/-! ## Lines of a body -/

/-- The rest of the first line that starts with the label, if the pattern accepts it. -/
def labelled (label : String) (accepts : List Char → Bool) (body : String) : Option (List Char) :=
  (body.toList.splitOnP isLineTerminator).findSome? fun line =>
    (label.toList.isPrefixOf? line).filter accepts

/-- `/^generationId:(.+)$/m`, the captured text. -/
def genOf (body : String) : Option String :=
  (labelled "generationId:" (· ≠ []) body).map String.ofList

/-- `/^sourceElementId:/m`. -/
def isStub (body : String) : Bool := (labelled "sourceElementId:" (fun _ => true) body).isSome

/-- A text that fits on a line. -/
def OneLine (text : String) : Prop := ∀ c ∈ text.toList, isLineTerminator c = false

theorem not_terminator_of_all {cs : List Char} (check : cs.all (!isLineTerminator ·) = true) :
    ∀ c ∈ cs, isLineTerminator c = false := fun c mem => by
  simpa using List.all_eq_true.mp check c mem

/-! ## Scope artifacts -/

/-- `element` depends on `dependsOn`. -/
structure Dep where
  element : String
  dependsOn : String
  deriving DecidableEq, Repr

/-- What `extractScope` reads of an artifact: the ids of its elements (`scope-N`), and
the declared dependencies. -/
structure ScopeExtract where
  authoredElements : List String
  deps : List Dep
  distinct : authoredElements.Nodup
  oneLine : ∀ id ∈ authoredElements, OneLine id
  deriving DecidableEq

/-- Two artifacts with the same elements and dependencies, in whatever order. -/
def ScopeExtract.Same (ext other : ScopeExtract) : Prop :=
  (∀ id, id ∈ ext.authoredElements ↔ id ∈ other.authoredElements) ∧
    ∀ d, d ∈ ext.deps ↔ d ∈ other.deps

section

variable (digest : Digest)

def jsonStrings (texts : List String) : String :=
  "[" ++ ",".intercalate (texts.map jsonString) ++ "]"

/-- A hash of the sorted ids and dependencies. -/
def deriveGenerationId (ext : ScopeExtract) : String :=
  let ids := ext.authoredElements.insertionSort (· ≤ ·)
  let deps := (ext.deps.map fun d => d.dependsOn ++ "->" ++ d.element).insertionSort (· ≤ ·)
  "gen-" ++ digest 12 ("\x7b\"ids\":" ++ jsonStrings ids ++ ",\"deps\":" ++ jsonStrings deps ++ "\x7d")

/-! ## The programs -/

/-- The body of a child: its element and its generation. -/
def stamp (element generationId : String) : String :=
  "sourceElementId:" ++ element ++ "\ngenerationId:" ++ generationId

/-- The loop over the elements: create and link; `idOf` maps an element to its issue. -/
def createChild (parentId generationId : String) (idOf : String → Option String)
    (element : String) : Async (String → Option String) := do
  let issue ← Wg.createIssue element (stamp element generationId)
  let idOf := Function.update idOf element (some issue.id)
  Wg.addEdge parentId issue.id .parentChild
  return idOf

/-- The loop over the dependencies: a depended-on element blocks its dependent. -/
def linkDep (idOf : String → Option String) (d : Dep) : Async Unit :=
  match idOf d.dependsOn, idOf d.element with
  | some fromId, some toId => Wg.addEdge fromId toId .blocks
  | _, _ => return ()

/-- `artifact` is what `extractScope` reads at its path: nothing when it is absent. -/
def autoDecompose (artifact : Option ScopeExtract) (parentId generationId : String) : Async Unit :=
  match artifact with
  | none => return ()
  | some ext => do
      let idOf ← Program.foldEach (createChild parentId generationId) (fun _ => none)
        ext.authoredElements
      Program.forEach (linkDep idOf) ext.deps

/-- The children of a task that are not archived, in the order of their edges. -/
def childrenOf (issues : List Issue) (edges : List Edge) (taskId : String) : List Issue :=
  (edges.filter fun e => e.type = .parentChild && e.fromId = taskId).filterMap fun e =>
    (issues.find? (·.id = e.toId)).filter (·.status ≠ .archived)

inductive ReconcileAction
  | first
  | idempotent
  | superseded
  deriving DecidableEq, Repr

structure ReconcileResult where
  action : ReconcileAction
  archived : List String
  deriving DecidableEq, Repr

def reconcileDecomposition (taskId : String) (artifact : Option ScopeExtract) (ext : ScopeExtract) :
    Async ReconcileResult := do
  let currentGen := deriveGenerationId digest ext
  let issues ← Wg.listIssues
  let edges ← Wg.listEdges
  let children := childrenOf issues edges taskId
  if children.any fun c => genOf c.body = some currentGen then
    return ⟨.idempotent, []⟩
  else do
    let stale := children.filter fun c => genOf c.body ≠ some currentGen
    Program.forEach (fun c =>
      Wg.archiveIssue c.id (some ("superseded by generation " ++ currentGen))) stale
    autoDecompose artifact taskId currentGen
    return ⟨if stale ≠ [] then .superseded else .first, stale.map (·.id)⟩

end

/-! ## Stamps -/

theorem isPrefixOf?_append (label rest : List Char) :
    label.isPrefixOf? (label ++ rest) = some rest := by
  induction label with
  | nil => cases rest <;> rfl
  | cons c label ih => simp only [List.cons_append, List.isPrefixOf?, beq_self_eq_true, ↓reduceIte, ih]

theorem stamp_eq (element generationId : String) :
    stamp element generationId =
      "sourceElementId:" ++ element ++ "\ngenerationId:" ++ generationId := rfl

theorem stamp_lines {element generationId : String} (element_oneLine : OneLine element)
    (gen_oneLine : OneLine generationId) :
    (stamp element generationId).toList.splitOnP isLineTerminator =
      ["sourceElementId:".toList ++ element.toList,
        "generationId:".toList ++ generationId.toList] := by
  have text : (stamp element generationId).toList =
      ("sourceElementId:".toList ++ element.toList) ++
        '\n' :: ("generationId:".toList ++ generationId.toList) := by
    simp only [stamp_eq, String.toList_append, String.reduceToList, List.append_assoc,
      List.cons_append, List.nil_append]
  have labels : ∀ c ∈ "sourceElementId:".toList ++ "generationId:".toList,
      isLineTerminator c = false := not_terminator_of_all (by decide)
  have first : ∀ c ∈ "sourceElementId:".toList ++ element.toList, isLineTerminator c = false :=
    fun c mem => (List.mem_append.mp mem).elim
      (fun label => labels c (List.mem_append_left _ label)) (element_oneLine c)
  have second : ∀ c ∈ "generationId:".toList ++ generationId.toList, isLineTerminator c = false :=
    fun c mem => (List.mem_append.mp mem).elim
      (fun label => labels c (List.mem_append_right _ label)) (gen_oneLine c)
  rw [text, List.splitOnP_append_cons_of_forall_mem first '\n' rfl, List.splitOnP_eq_singleton second]

/-- The stamped generation is read back. -/
theorem genOf_stamp {element generationId : String} (element_oneLine : OneLine element)
    (gen_oneLine : OneLine generationId) (named : generationId ≠ "") :
    genOf (stamp element generationId) = some generationId := by
  have some_text : generationId.toList ≠ [] := fun empty => named (String.toList_eq_nil_iff.mp empty)
  have other : "generationId:".toList.isPrefixOf? ("sourceElementId:".toList ++ element.toList) =
      none := rfl
  rw [genOf, labelled, stamp_lines element_oneLine gen_oneLine, List.findSome?_cons, other,
    Option.filter_none]
  simp only [List.findSome?_cons, isPrefixOf?_append, Option.filter_some, ne_eq, some_text,
    not_false_eq_true, decide_true, ↓reduceIte, Option.map_some, String.ofList_toList]

theorem stamp_inj {element other generationId : String}
    (same : stamp element generationId = stamp other generationId) : element = other := by
  have text := congrArg String.toList same
  simp only [stamp_eq, String.toList_append, List.append_cancel_left_eq,
    List.append_cancel_right_eq, String.toList_inj] at text
  exact text

/-! ## Children -/

/-- A child of the task that is not archived. -/
structure LiveChild (b : Board) (taskId : String) (i : Issue) : Prop where
  owned : b.edge taskId i.id = some .parentChild
  present : b.issue i.id = some i
  live : i.status ≠ .archived

theorem mem_listEdges {digest : Digest} {b : Board} {e : Edge} :
    e ∈ b.listEdges digest ↔ b.edge e.fromId e.toId = some e.type := by
  rw [Board.listEdges, List.mem_insertionSort, Board.mem_edges]

theorem mem_childrenOf {digest : Digest} {b : Board} {taskId : String} {i : Issue} :
    i ∈ childrenOf b.issues.rows (b.listEdges digest) taskId ↔ LiveChild b taskId i := by
  simp only [childrenOf, List.mem_filterMap, List.mem_filter, mem_listEdges, Bool.and_eq_true,
    decide_eq_true_eq, Option.filter_eq_some_iff]
  constructor
  · rintro ⟨e, ⟨typed, child, parent⟩, found, live⟩
    have present : b.issue e.toId = some i := found
    have same : i.id = e.toId := Table.key_of_get present
    subst parent
    rw [child, ← same] at typed
    exact ⟨typed, same ▸ present, live⟩
  · intro child
    exact ⟨⟨taskId, i.id, .parentChild⟩, ⟨child.owned, rfl, rfl⟩, child.present, child.live⟩

/-! ## An example -/

/-- The texts that are hashed for the boards and artifacts below, with their SHA-256. -/
def sampleHashes : List (String × String) :=
  [("\x7b\"ids\":[\"scope-1\",\"scope-2\"],\"deps\":[\"scope-1->scope-2\"]\x7d",
      "92b9d32ba54c32f0e8308d87febb665f0e1e7322d72e95bcbb1fed1178852273"),
    ("\x7b\"ids\":[\"scope-1\"],\"deps\":[]\x7d",
      "4ef69c23a180594c0523c9294e0fe499f41958437cf62934984c7b69e814ed75"),
    ("wg-task\x1fwg-1",
      "d7d6d2132fbb003d47571b54001e4d0e5001e052e80cd1e8cd291165e366be56"),
    ("wg-task\x1fwg-2",
      "ea4c92466b9ecfe97eec8a3ab34bfd7bf1a789095b71aa2acea478bb020586e5"),
    ("wg-task\x1fwg-3",
      "77db168f47e4ad79604d617c1f65d389671e37e801ca05d15fb216c9eeb9820c"),
    ("wg-1\x1fwg-2",
      "82696220bec7a46e0efab0b0d79314b82fb1ce68fd5c500bf6306206df6c0275")]

/-- The digest of the listed texts; the other texts share that of the first. -/
def sampleDigest : Digest := fun n text =>
  let hash := ((sampleHashes.find? (·.1 = text)).map (·.2)).getD
    "92b9d32ba54c32f0e8308d87febb665f0e1e7322d72e95bcbb1fed1178852273"
  String.ofList (hash.toList.take n)

def task : Issue := ⟨"wg-task", "task", "", .open, none, none, none, none⟩

/-- A board with the task alone. -/
def taskBoard : Board := Board.empty.create task.title task.body task.id rfl

theorem oneLine_of_all {ids : List String}
    (check : ids.all (·.toList.all (!isLineTerminator ·)) = true) : ∀ id ∈ ids, OneLine id :=
  fun id mem => not_terminator_of_all (List.all_eq_true.mp check id mem)

/-- Two elements, the second one needs the first. -/
def twoSteps : ScopeExtract where
  authoredElements := ["scope-1", "scope-2"]
  deps := [⟨"scope-2", "scope-1"⟩]
  distinct := by decide
  oneLine := oneLine_of_all (by decide)

/-- The scope authored again, with one element. -/
def oneStep : ScopeExtract where
  authoredElements := ["scope-1"]
  deps := []
  distinct := by decide
  oneLine := oneLine_of_all (by decide)

end Opensquid.Loop
