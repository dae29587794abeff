import Opensquid.Lib.TopoSort
import Opensquid.Lib.Whitespace
import Opensquid.Loop.Decompose

/-!
# The plan audit

`planAudit` sorts the issues along their `blocks` and `parent-child` edges and looks for design
elements that no issue covers; `buildCoveredBy` reads from a body which element an issue is
stamped with. `planAudit_exact` says what the report means for any edges and any bodies.
-/

namespace Opensquid.Loop

open Relation Opensquid.Lib

/-! ## The stamp -/

/-- `/label(\S+)/`, the captured text. -/
def captureWord (label : List Char) : List Char → Option (List Char)
  | [] => none
  | c :: rest =>
      match (label.isPrefixOf? (c :: rest)).map (·.takeWhile (!isSpace ·)) with
      | some (d :: word) => some (d :: word)
      | _ => captureWord label rest

/-- The element that a body is stamped with. -/
def stampedElement (body : String) : Option String :=
  (captureWord "sourceElementId:".toList body.toList).map String.ofList

theorem captureWord_append {label word after : List Char} (labelled : label ≠ [])
    (named : word ≠ []) (inside : ∀ c ∈ word, isSpace c = false)
    (ends : ∀ c ∈ after.head?, isSpace c = true) :
    captureWord label (label ++ (word ++ after)) = some word := by
  obtain ⟨l, label, rfl⟩ := List.exists_cons_of_ne_nil labelled
  obtain ⟨d, word, rfl⟩ := List.exists_cons_of_ne_nil named
  have stop : after.takeWhile (!isSpace ·) = [] := by
    cases after with
    | nil => rfl
    | cons c after => exact List.takeWhile_cons_of_neg (by simp [ends c rfl])
  have whole : ((d :: word) ++ after).takeWhile (!isSpace ·) = d :: word := by
    rw [List.takeWhile_append_of_pos fun c mem => by rw [inside c mem]; rfl, stop, List.append_nil]
  have seen : (l :: label).isPrefixOf? (l :: (label ++ ((d :: word) ++ after))) =
      some ((d :: word) ++ after) := List.isPrefixOf?_eq_some_iff_append_eq.mpr rfl
  rw [List.cons_append, captureWord, seen, Option.map_some, whole]

/-- What the decomposition stamps is read back. -/
theorem stampedElement_stamp {element generationId : String} (named : element ≠ "")
    (word : ∀ c ∈ element.toList, isSpace c = false) :
    stampedElement (stamp element generationId) = some element := by
  have text : (stamp element generationId).toList = "sourceElementId:".toList ++
      (element.toList ++ ('\n' :: ("generationId:" ++ generationId).toList)) := by
    simp only [stamp_eq, String.toList_append, String.reduceToList, List.append_assoc,
      List.cons_append, List.nil_append]
  have newline : ∀ c ∈ ('\n' :: ("generationId:" ++ generationId).toList).head?,
      isSpace c = true := by
    rintro _ ⟨⟩
    rfl
  have captured := captureWord_append (by decide : "sourceElementId:".toList ≠ [])
    (fun none => named (String.toList_eq_nil_iff.mp none)) word newline
  rw [stampedElement, text, captured, Option.map_some, String.ofList_toList]

/-! ## The report -/

structure PlanEdge where
  fromId : String
  toId : String
  type : String
  deriving DecidableEq, Repr

/-- What is read of an issue. -/
structure PlanIssue where
  id : String
  body : String
  deriving DecidableEq, Repr

/-- The own properties of the object. -/
abbrev CoveredBy := String → Option (List String)

structure PlanInput where
  issueIds : List String
  edges : List PlanEdge
  designElementIds : List String
  coveredBy : CoveredBy

structure PlanReport where
  acyclic : Bool
  complete : Bool
  cycles : List String
  uncovered : List String
  deriving DecidableEq, Repr

def PlanEdge.isDependency (e : PlanEdge) : Bool := e.type = "blocks" || e.type = "parent-child"

/-- The two maps that the loop over the edges fills. -/
structure PlanLinks where
  indeg : String → Int
  adj : String → List String

/-- An edge with an unknown end is left out. -/
def PlanLinks.add (issueIds : List String) (links : PlanLinks) (e : PlanEdge) : PlanLinks :=
  if e.fromId ∈ issueIds ∧ e.toId ∈ issueIds then
    { indeg := Function.update links.indeg e.toId (links.indeg e.toId + 1)
      adj := Function.update links.adj e.fromId (links.adj e.fromId ++ [e.toId]) }
  else links

def planLinks (issueIds : List String) (edges : List PlanEdge) : PlanLinks :=
  (edges.filter (·.isDependency)).foldl (PlanLinks.add issueIds) ⟨fun _ => 0, fun _ => []⟩

def planAudit (p : PlanInput) : PlanReport :=
  let links := planLinks p.issueIds p.edges
  let q := p.issueIds.filter (links.indeg · = 0)
  let sorted := Kahn.drain links.adj p.issueIds.length ⟨links.indeg, q, 0⟩
  let acyclic : Bool := sorted.seen = p.issueIds.length
  let uncovered := p.designElementIds.filter fun d => ((p.coveredBy d).getD []).isEmpty
  { acyclic
    complete := uncovered.isEmpty
    cycles := if acyclic then [] else p.issueIds.filter (0 < sorted.indeg ·)
    uncovered }

/-- One issue of the join: it is listed under its element if that is a key. -/
def coverIssue (cov : CoveredBy) (i : PlanIssue) : CoveredBy :=
  match stampedElement i.body with
  | none => cov
  | some element => Function.update cov element ((cov element).map (· ++ [i.id]))

def buildCoveredBy (designElementIds : List String) (issues : List PlanIssue) : CoveredBy :=
  issues.foldl coverIssue fun d => if d ∈ designElementIds then some [] else none

/-- A dependency between two known issues. -/
def Depends (issueIds : List String) (edges : List PlanEdge) (x y : String) : Prop :=
  x ∈ issueIds ∧ y ∈ issueIds ∧ ∃ e ∈ edges, e.isDependency ∧ e.fromId = x ∧ e.toId = y

/-! ## The links -/

section

variable {issueIds designElementIds : List String} {edges : List PlanEdge} {issues : List PlanIssue}

/-- The edges that are counted. -/
def knownEnds (issueIds : List String) (rel : List PlanEdge) : List (String × String) :=
  (rel.filter fun e => e.fromId ∈ issueIds ∧ e.toId ∈ issueIds).map fun e => (e.fromId, e.toId)

theorem mem_knownEnds {x y : String} :
    (x, y) ∈ knownEnds issueIds (edges.filter (·.isDependency)) ↔ Depends issueIds edges x y := by
  simp only [knownEnds, Depends, List.mem_map, List.mem_filter, decide_eq_true_eq, Prod.mk.injEq]
  constructor
  · rintro ⟨e, ⟨⟨mem, typed⟩, start, finish⟩, rfl, rfl⟩
    exact ⟨start, finish, e, mem, typed, rfl, rfl⟩
  · rintro ⟨start, finish, e, mem, typed, rfl, rfl⟩
    exact ⟨e, ⟨⟨mem, typed⟩, start, finish⟩, rfl, rfl⟩

/-- What the loop over the edges computes. -/
theorem foldl_add {rel : List PlanEdge} {links : PlanLinks} :
    (∀ v, (rel.foldl (PlanLinks.add issueIds) links).indeg v =
      links.indeg v + edgesInto (knownEnds issueIds rel) [] v) ∧
    ∀ n, (rel.foldl (PlanLinks.add issueIds) links).adj n =
      links.adj n ++ targets (knownEnds issueIds rel) n := by
  induction rel generalizing links with
  | nil => exact ⟨fun v => (Int.add_zero _).symm, fun n => (List.append_nil _).symm⟩
  | cons e rel ih =>
      obtain ⟨count, list⟩ := @ih (links.add issueIds e)
      rw [PlanLinks.add] at count list
      rw [List.foldl_cons, PlanLinks.add, knownEnds, List.filter_cons]
      by_cases known : e.fromId ∈ issueIds ∧ e.toId ∈ issueIds
      · rw [if_pos known] at count list ⊢
        rw [if_pos (decide_eq_true known), List.map_cons]
        refine ⟨fun v => ?_, fun n => ?_⟩
        · rw [count, edgesInto_cons_nil, knownEnds]
          dsimp only
          rw [Function.update_apply]
          split
          · rename_i same
            rw [same]
            omega
          · omega
        · rw [list, targets_cons, knownEnds]
          dsimp only
          rw [Function.update_apply]
          split
          · rename_i same
            rw [same, List.append_assoc, List.singleton_append]
          · rfl
      · rw [if_neg known] at count list ⊢
        rw [if_neg (by simpa using known)]
        exact ⟨count, list⟩

theorem planLinks_spec :
    (∀ v, (planLinks issueIds edges).indeg v =
      edgesInto (knownEnds issueIds (edges.filter (·.isDependency))) [] v) ∧
    (planLinks issueIds edges).adj = targets (knownEnds issueIds (edges.filter (·.isDependency))) := by
  obtain ⟨count, list⟩ := @foldl_add issueIds (edges.filter (·.isDependency))
    ⟨fun _ => 0, fun _ => []⟩
  exact ⟨fun v => (count v).trans (Int.zero_add _), funext fun n => (list n).trans rfl⟩

/-! ## Coverage -/

theorem foldl_coverIssue {cov : CoveredBy} (d : String) : issues.foldl coverIssue cov d =
    (cov d).map (· ++ (issues.filter (stampedElement ·.body = some d)).map (·.id)) := by
  induction issues generalizing cov with
  | nil => simp
  | cons i issues ih =>
      rw [List.foldl_cons, ih]
      cases stamped : stampedElement i.body with
      | none => simp [coverIssue, stamped]
      | some element =>
          by_cases same : d = element
          · subst same
            simp [coverIssue, stamped, Function.comp_def]
          · simp [coverIssue, stamped, Function.update_of_ne same, Ne.symm same]

/-- The issues of a design element are those whose body is stamped with it. -/
theorem buildCoveredBy_eq {d : String} (design : d ∈ designElementIds) :
    buildCoveredBy designElementIds issues d =
      some ((issues.filter (stampedElement ·.body = some d)).map (·.id)) := by
  rw [buildCoveredBy, foldl_coverIssue, if_pos design, Option.map_some, List.nil_append]

/-! ## What the report means -/

/-- For distinct issue ids and any edges, design elements and bodies. -/
theorem planAudit_exact (distinct : issueIds.Nodup) :
    let report : PlanReport := planAudit
      ⟨issueIds, edges, designElementIds, buildCoveredBy designElementIds issues⟩
    (report.acyclic = true ↔ ∀ id, ¬ TransGen (Depends issueIds edges) id id) ∧
    (report.acyclic = false →
      (∀ id, TransGen (Depends issueIds edges) id id → id ∈ report.cycles) ∧
      ∀ id ∈ report.cycles, ∃ c, TransGen (Depends issueIds edges) c c ∧
        ReflTransGen (Depends issueIds edges) c id) ∧
    (report.complete = true ↔
      ∀ d ∈ designElementIds, ∃ i ∈ issues, stampedElement i.body = some d) := by
  intro report
  obtain ⟨count, adj⟩ : (∀ v, (planLinks issueIds edges).indeg v = _) ∧ _ = _ := planLinks_spec
  let rel := knownEnds issueIds (edges.filter (·.isDependency))
  have depends : (fun u v => (u, v) ∈ rel) = Depends issueIds edges :=
    funext fun u => funext fun v => propext mem_knownEnds
  have ends : ∀ e ∈ rel, e.1 ∈ issueIds ∧ e.2 ∈ issueIds := fun e mem =>
    have known : Depends issueIds edges e.1 e.2 := mem_knownEnds.mp mem
    ⟨known.1, known.2.1⟩
  obtain ⟨taken, sorting, finished⟩ := (Sorting.start distinct count).drain
    (fun e mem => (ends e mem).2) (Nat.le_add_left issueIds.length _)
  rw [← adj] at sorting finished
  have seen := sorting.seen_eq_iff finished distinct fun e mem => (ends e mem).1
  have above := fun v => @Sorting.cycle_above _ _ _ _ _ _ sorting finished (fun e mem => (ends e mem).1) v
  have apart := fun v => @Sorting.not_taken _ _ _ _ _ _ sorting v
  rw [depends] at seen above apart
  have acyclic : report.acyclic = true ↔ ∀ id, ¬ TransGen (Depends issueIds edges) id id :=
    decide_eq_true_iff.trans seen
  have left : report.acyclic = false → ∀ v, v ∈ report.cycles ↔ v ∈ issueIds ∧ v ∉ taken := by
    intro cyclic v
    have cycles : report.cycles = if report.acyclic then [] else _ := rfl
    rw [cycles, cyclic, if_neg Bool.false_ne_true, List.mem_filter, decide_eq_true_eq]
    refine and_congr_right fun node => ?_
    rw [sorting.taken_iff finished node, sorting.indeg]
    omega
  refine ⟨acyclic, fun cyclic => ⟨fun v cycle => ?_, fun v mem => ?_⟩, ?_⟩
  · obtain ⟨w, edge, -⟩ := TransGen.head'_iff.mp cycle
    exact (left cyclic v).mpr ⟨edge.1, apart v cycle⟩
  · obtain ⟨node, free⟩ := (left cyclic v).mp mem
    exact above v node free
  · have complete : report.complete = (designElementIds.filter fun d =>
        ((buildCoveredBy designElementIds issues d).getD []).isEmpty).isEmpty := rfl
    rw [complete, List.isEmpty_iff, List.filter_eq_nil_iff]
    refine forall₂_congr fun d design => ?_
    rw [buildCoveredBy_eq design, Option.getD_some, List.isEmpty_iff, List.map_eq_nil_iff,
      List.filter_eq_nil_iff]
    simp only [decide_eq_true_eq, not_forall, not_not, exists_prop]

theorem planAudit_exact_cyclic :
    let report := planAudit ⟨["a", "b", "c"],
      [⟨"a", "b", "blocks"⟩, ⟨"b", "a", "parent-child"⟩, ⟨"b", "c", "blocks"⟩,
        ⟨"c", "x", "blocks"⟩], ["scope-1"],
      buildCoveredBy ["scope-1"] [⟨"a", stamp "scope-1" "gen-1"⟩]⟩
    report.acyclic = false ∧ "a" ∈ report.cycles ∧ report.complete = true := by
  intro report
  obtain ⟨acyclic, cycles, complete⟩ := @planAudit_exact ["a", "b", "c"] ["scope-1"]
    [⟨"a", "b", "blocks"⟩, ⟨"b", "a", "parent-child"⟩, ⟨"b", "c", "blocks"⟩, ⟨"c", "x", "blocks"⟩]
    [⟨"a", stamp "scope-1" "gen-1"⟩] (by decide)
  have around : TransGen (Depends ["a", "b", "c"] [⟨"a", "b", "blocks"⟩, ⟨"b", "a", "parent-child"⟩,
      ⟨"b", "c", "blocks"⟩, ⟨"c", "x", "blocks"⟩]) "a" "a" :=
    .tail (.single ⟨by decide, by decide, _, List.mem_cons_self, rfl, rfl, rfl⟩)
      ⟨by decide, by decide, _, List.mem_cons_of_mem _ List.mem_cons_self, rfl, rfl, rfl⟩
  have cyclic : report.acyclic = false :=
    Bool.eq_false_iff.mpr fun sorted => acyclic.mp sorted "a" around
  refine ⟨cyclic, (cycles cyclic).1 "a" around, complete.mpr fun d mem => ?_⟩
  cases List.mem_singleton.mp mem
  have solid : ("scope-1".toList.all (!isSpace ·)) = true := by decide
  refine ⟨_, List.mem_cons_self, stampedElement_stamp (by decide) fun c inside => ?_⟩
  simpa using List.all_eq_true.mp solid c inside

end

end Opensquid.Loop
