import Mathlib.Data.List.Nodup
import Mathlib.Logic.Relation
import Mathlib.Order.WellFounded
import Mathlib.Data.Fintype.Card
import Mathlib.Data.Set.Finite.Lattice

/-!
# Topological sorting by in-degrees

Kahn's algorithm over a multigraph: a node is taken from the queue, the in-degrees of its
successors are lowered, and those that come to zero are queued. `Sorting` is what it keeps. When
the queue is empty, the nodes that were taken are well-founded under the edges
(`Sorting.not_cycle`), and every other one is reached from a cycle (`Sorting.cycle_above`).
-/

namespace Opensquid.Lib

open Relation

/-! ## Cycles -/

section

variable {α : Type*} {R : α → α → Prop}

theorem not_transGen_of_acc {a : α} (founded : Acc R a) : ¬ TransGen R a a := by
  have founded' := founded.transGen
  induction founded' with
  | intro a _ ih => exact fun cycle => ih a cycle founded cycle

/-- In a finite set in which every element has a predecessor, each is reached from a cycle. -/
theorem exists_cycle_above {nodes : List α} (before : ∀ v ∈ nodes, ∃ u ∈ nodes, R u v) {v : α}
    (mem : v ∈ nodes) : ∃ c, TransGen R c c ∧ ReflTransGen R c v := by
  by_contra acyclic
  simp only [not_exists, not_and'] at acyclic
  let Above := { u : α // u ∈ nodes ∧ ReflTransGen R u v }
  have : Finite Above :=
    (nodes.finite_toSet.subset fun u (above : u ∈ nodes ∧ ReflTransGen R u v) => above.1).to_subtype
  let path : Above → Above → Prop := fun a b => TransGen R a.1 b.1
  have : IsTrans Above path := ⟨fun _ _ _ => TransGen.trans⟩
  have : Std.Irrefl path := ⟨fun a => acyclic a.1 a.2.2⟩
  have founded : WellFounded path := Finite.wellFounded_of_trans_of_irrefl path
  obtain ⟨least, -, minimal⟩ := founded.has_min Set.univ ⟨⟨v, mem, .refl⟩, trivial⟩
  obtain ⟨u, known, edge⟩ := before least.1 least.2.1
  exact minimal ⟨u, known, .head edge least.2.2⟩ trivial (.single edge)

end

/-! ## The algorithm -/

structure Kahn (α : Type*) where
  indeg : α → Int
  queue : List α
  seen : Nat

namespace Kahn

variable {α : Type*} [DecidableEq α]

/-- One edge to `m` is taken away. -/
def relax (k : Kahn α) (m : α) : Kahn α where
  indeg := Function.update k.indeg m (k.indeg m - 1)
  queue := if k.indeg m - 1 = 0 then k.queue ++ [m] else k.queue
  seen := k.seen

/-- Take nodes until the queue is empty. -/
def drain (adj : α → List α) : Nat → Kahn α → Kahn α
  | 0, k => k
  | fuel + 1, k =>
      match k.queue with
      | [] => k
      | n :: rest =>
          drain adj fuel ((adj n).foldl relax { k with queue := rest, seen := k.seen + 1 })

variable {k : Kahn α} {ms : List α}

theorem relax_seen (m : α) : (k.relax m).seen = k.seen := rfl

theorem relax_indeg (m v : α) :
    (k.relax m).indeg v = k.indeg v - if v = m then 1 else 0 := by
  simp only [relax, Function.update_apply]
  split
  · rename_i same
    rw [same]
  · omega

theorem foldl_relax_seen : (ms.foldl relax k).seen = k.seen := by
  induction ms generalizing k with
  | nil => rfl
  | cons m ms ih => rw [List.foldl_cons, ih, relax_seen]

theorem foldl_relax_indeg (v : α) : (ms.foldl relax k).indeg v = k.indeg v - ms.count v := by
  induction ms generalizing k with
  | nil => simp
  | cons m ms ih =>
      rw [List.foldl_cons, ih, relax_indeg, List.count_cons]
      by_cases same : v = m
      · simp only [same, if_true, beq_self_eq_true]
        omega
      · have other : (m == v) = false := beq_eq_false_iff_ne.mpr (Ne.symm same)
        simp only [same, if_false, other, Bool.false_eq_true]
        omega

/-- What is queued while edges are taken away: the nodes that the last edge to them is taken from. -/
theorem foldl_relax_queue (enough : ∀ v, (ms.count v : Int) ≤ k.indeg v)
    (zero : ∀ v ∈ k.queue, k.indeg v = 0) (once : k.queue.Nodup) :
    ∃ more, (ms.foldl relax k).queue = k.queue ++ more ∧ (k.queue ++ more).Nodup ∧
      ∀ v, v ∈ more ↔ v ∈ ms ∧ (ms.foldl relax k).indeg v = 0 := by
  induction ms generalizing k with
  | nil => exact ⟨[], (List.append_nil _).symm, by rwa [List.append_nil], by simp⟩
  | cons m ms ih =>
      have positive : 1 ≤ k.indeg m := by
        have here := enough m
        rw [List.count_cons_self] at here
        omega
      have new : m ∉ k.queue := fun mem => by
        have := zero m mem
        omega
      have enough' : ∀ v, (ms.count v : Int) ≤ (k.relax m).indeg v := by
        intro v
        have here := enough v
        rw [relax_indeg]
        by_cases same : v = m
        · subst same
          rw [List.count_cons_self] at here
          simp only [if_true]
          omega
        · rw [List.count_cons_of_ne (Ne.symm same)] at here
          simp only [same, if_false]
          omega
      have kept : ∀ v ∈ k.queue, (k.relax m).indeg v = 0 := by
        intro v mem
        have other : v ≠ m := fun same => new (same ▸ mem)
        rw [relax_indeg, if_neg other, zero v mem, Int.sub_zero]
      have last : (k.relax m).indeg m = k.indeg m - 1 := by rw [relax_indeg, if_pos rfl]
      by_cases done : k.indeg m - 1 = 0
      · have queue : (k.relax m).queue = k.queue ++ [m] := if_pos done
        have zero' : ∀ v ∈ (k.relax m).queue, (k.relax m).indeg v = 0 := by
          intro v mem
          rcases List.mem_append.mp (queue ▸ mem) with old | here
          · exact kept v old
          · rw [List.mem_singleton.mp here, last, done]
        have once' : (k.relax m).queue.Nodup := queue ▸ List.nodup_append.mpr
          ⟨once, List.nodup_singleton m, fun x mem y here same =>
            new (List.mem_singleton.mp here ▸ same ▸ mem)⟩
        obtain ⟨more, eq, nodup, mem⟩ := ih enough' zero' once'
        refine ⟨m :: more, ?_, ?_, fun v => ?_⟩
        · rw [List.foldl_cons, eq, queue, List.append_assoc, List.singleton_append]
        · rwa [queue, List.append_assoc, List.singleton_append] at nodup
        · rw [List.foldl_cons, List.mem_cons, List.mem_cons, mem]
          constructor
          · rintro (rfl | ⟨later, zero⟩)
            · refine ⟨.inl rfl, ?_⟩
              have := enough' v
              rw [last] at this
              rw [foldl_relax_indeg, last]
              omega
            · exact ⟨.inr later, zero⟩
          · rintro ⟨rfl | later, zero⟩
            · exact .inl rfl
            · exact .inr ⟨later, zero⟩
      · have queue : (k.relax m).queue = k.queue := if_neg done
        obtain ⟨more, eq, nodup, mem⟩ := ih enough' (queue ▸ kept) (queue ▸ once)
        rw [queue] at eq nodup
        refine ⟨more, by rw [List.foldl_cons, eq], nodup, fun v => ?_⟩
        rw [List.foldl_cons, List.mem_cons, mem]
        constructor
        · exact fun ⟨later, zero⟩ => ⟨.inr later, zero⟩
        · rintro ⟨rfl | later, zero⟩
          · -- a node that has edges left after this one is among the rest
            refine ⟨?_, zero⟩
            by_contra absent
            rw [foldl_relax_indeg, last, List.count_eq_zero_of_not_mem absent] at zero
            exact done (by omega)
          · exact ⟨later, zero⟩

end Kahn

/-! ## What it keeps -/

section

variable {α : Type*} [DecidableEq α] {nodes : List α} {edges : List (α × α)}

/-- The edges to `v` from the nodes that are still there. -/
def edgesInto (edges : List (α × α)) (taken : List α) (v : α) : Nat :=
  edges.countP fun e => e.2 = v ∧ e.1 ∉ taken

def targets (edges : List (α × α)) (n : α) : List α :=
  (edges.filter fun e => e.1 = n).map Prod.snd

theorem mem_targets {n v : α} : v ∈ targets edges n ↔ (n, v) ∈ edges := by
  simp only [targets, List.mem_map, List.mem_filter, decide_eq_true_eq]
  constructor
  · rintro ⟨⟨_, _⟩, ⟨mem, rfl⟩, rfl⟩
    exact mem
  · exact fun mem => ⟨(n, v), ⟨mem, rfl⟩, rfl⟩

theorem edgesInto_cons_nil (u v w : α) :
    edgesInto ((u, v) :: edges) [] w = edgesInto edges [] w + if w = v then 1 else 0 := by
  simp [edgesInto, List.countP_cons, eq_comm]

theorem targets_cons (u v n : α) :
    targets ((u, v) :: edges) n = if n = u then v :: targets edges n else targets edges n := by
  by_cases same : n = u
  · simp [targets, same]
  · simp [targets, same, Ne.symm same]

theorem edgesInto_concat {taken : List α} {n v : α} (new : n ∉ taken) :
    edgesInto edges taken v = edgesInto edges (taken ++ [n]) v + (targets edges n).count v := by
  unfold edgesInto targets
  induction edges with
  | nil => rfl
  | cons e edges ih =>
      rw [List.countP_cons, List.countP_cons, ih, List.filter_cons]
      by_cases here : e.1 = n
      · have old : e.1 ∉ taken := here ▸ new
        by_cases target : e.2 = v
        · simp [here, target, new]
          omega
        · simp [here, target]
      · simp [here]
        omega

theorem edgesInto_eq_zero {taken : List α} {v : α} :
    edgesInto edges taken v = 0 ↔ ∀ u, (u, v) ∈ edges → u ∈ taken := by
  simp only [edgesInto, List.countP_eq_zero, decide_eq_true_eq, not_and, not_not]
  exact ⟨fun all u mem => all (u, v) mem rfl, fun all e mem same => all e.1 (same ▸ mem)⟩

/-- `taken` are the nodes that have left the queue. -/
structure Sorting (nodes : List α) (edges : List (α × α)) (taken : List α) (k : Kahn α) : Prop where
  seen : k.seen = taken.length
  once : (taken ++ k.queue).Nodup
  known : ∀ v ∈ taken ++ k.queue, v ∈ nodes
  indeg : ∀ v, k.indeg v = edgesInto edges taken v
  free : ∀ v ∈ nodes, v ∈ taken ++ k.queue ↔ k.indeg v = 0
  founded : ∀ v ∈ taken, Acc (fun u v => (u, v) ∈ edges) v

namespace Sorting

variable {taken : List α} {k : Kahn α} {n : α} {rest : List α}

theorem start (distinct : nodes.Nodup) {indeg : α → Int}
    (count : ∀ v, indeg v = edgesInto edges [] v) :
    Sorting nodes edges [] ⟨indeg, nodes.filter (indeg · = 0), 0⟩ := by
  refine ⟨rfl, distinct.filter _, fun v mem => List.mem_of_mem_filter mem, count, fun v node => ?_,
    nofun⟩
  simp only [List.nil_append, List.mem_filter, node, true_and, decide_eq_true_eq]

/-- One node is taken from the queue. -/
theorem step (sorting : Sorting nodes edges taken k) (ends : ∀ e ∈ edges, e.2 ∈ nodes)
    (queue : k.queue = n :: rest) :
    Sorting nodes edges (taken ++ [n])
      ((targets edges n).foldl Kahn.relax { k with queue := rest, seen := k.seen + 1 }) := by
  obtain ⟨seen, once, known, indeg, free, founded⟩ := sorting
  have whole : taken ++ k.queue = (taken ++ [n]) ++ rest := by
    rw [queue, List.append_assoc, List.singleton_append]
  rw [whole] at once known free
  have zero : ∀ v ∈ (taken ++ [n]) ++ rest, k.indeg v = 0 := fun v mem =>
    (free v (known v mem)).mp mem
  have new : n ∉ taken := fun mem => (List.nodup_append.mp (List.nodup_append.mp once).1).2.2 n mem
    n List.mem_cons_self rfl
  have count : ∀ v, k.indeg v =
      edgesInto edges (taken ++ [n]) v + (targets edges n).count v := fun v => by
    rw [indeg, edgesInto_concat new, Int.natCast_add]
  have ready : k.indeg n = 0 := zero n (List.mem_append_left _ (List.mem_append_right _ (by simp)))
  have settled : ∀ v ∈ (taken ++ [n]) ++ rest, v ∉ targets edges n := fun v mem target => by
    have := zero v mem
    have := List.count_pos_iff.mpr target
    have := count v
    omega
  obtain ⟨more, eq, nodup, mem⟩ : ∃ more,
      ((targets edges n).foldl Kahn.relax ⟨k.indeg, rest, k.seen + 1⟩).queue = rest ++ more ∧
      (rest ++ more).Nodup ∧ ∀ v, v ∈ more ↔ v ∈ targets edges n ∧
        ((targets edges n).foldl Kahn.relax ⟨k.indeg, rest, k.seen + 1⟩).indeg v = 0 := by
    refine Kahn.foldl_relax_queue (fun v => ?_)
      (fun v mem => zero v (List.mem_append_right _ mem)) (List.nodup_append.mp once).2.1
    have := count v
    dsimp only
    omega
  have split : ∀ v, v ∈ (taken ++ [n]) ++ (rest ++ more) ↔ v ∈ (taken ++ [n]) ++ rest ∨ v ∈ more :=
    fun v => by rw [← List.append_assoc, List.mem_append]
  have lowered : ∀ v, ((targets edges n).foldl Kahn.relax ⟨k.indeg, rest, k.seen + 1⟩).indeg v =
      edgesInto edges (taken ++ [n]) v := fun v => by
    have := count v
    rw [Kahn.foldl_relax_indeg]
    dsimp only
    omega
  refine ⟨?_, ?_, ?_, lowered, ?_, ?_⟩
  · rw [Kahn.foldl_relax_seen, List.length_append, List.length_singleton, seen]
  · rw [eq, ← List.append_assoc]
    refine List.nodup_append.mpr ⟨once, (List.nodup_append.mp nodup).2.1, ?_⟩
    intro v old w fresh same
    exact settled v old ((mem v).mp (same ▸ fresh)).1
  · intro v here
    rw [eq] at here
    rcases (split v).mp here with old | fresh
    · exact known v old
    · exact ends (n, v) (mem_targets.mp ((mem v).mp fresh).1)
  · intro v node
    rw [eq, split, mem, Kahn.foldl_relax_indeg]
    by_cases target : v ∈ targets edges n
    · have old : v ∉ (taken ++ [n]) ++ rest := fun here => settled v here target
      simp only [old, target, false_or, true_and]
    · rw [free v node, List.count_eq_zero_of_not_mem target]
      simp only [target, false_and, or_false, Int.natCast_zero, Int.sub_zero]
  · intro v here
    rcases List.mem_append.mp here with old | last
    · exact founded v old
    · cases List.mem_singleton.mp last
      refine Acc.intro n fun u edge => founded u (edgesInto_eq_zero.mp ?_ u edge)
      have := indeg n
      omega

/-- The queue is empty after as many nodes as there are. -/
theorem drain (sorting : Sorting nodes edges taken k) (ends : ∀ e ∈ edges, e.2 ∈ nodes) {fuel : Nat}
    (enough : nodes.length ≤ taken.length + fuel) :
    ∃ taken', Sorting nodes edges taken' (k.drain (targets edges) fuel) ∧
      (k.drain (targets edges) fuel).queue = [] := by
  induction fuel generalizing taken k with
  | zero =>
      have all := (sorting.once.subperm sorting.known).length_le
      rw [List.length_append] at all
      have none : k.queue.length = 0 := by omega
      exact ⟨taken, sorting, List.length_eq_zero_iff.mp none⟩
  | succ fuel ih =>
      rw [Kahn.drain]
      cases queue : k.queue with
      | nil => exact ⟨taken, sorting, queue⟩
      | cons n rest =>
          refine ih (sorting.step ends queue) ?_
          rw [List.length_append, List.length_singleton]
          omega

/-- No node that was taken is on a cycle. -/
theorem not_taken (sorting : Sorting nodes edges taken k) {v : α}
    (cycle : TransGen (fun u v => (u, v) ∈ edges) v v) : v ∉ taken :=
  fun mem => not_transGen_of_acc (sorting.founded v mem) cycle

section

variable (sorting : Sorting nodes edges taken k) (finished : k.queue = [])
include sorting finished

theorem taken_iff {v : α} (node : v ∈ nodes) : v ∈ taken ↔ k.indeg v = 0 := by
  have free := sorting.free v node
  rwa [finished, List.append_nil] at free

theorem cycle_above (starts : ∀ e ∈ edges, e.1 ∈ nodes) {v : α} (node : v ∈ nodes)
    (left : v ∉ taken) :
    ∃ c, TransGen (fun u v => (u, v) ∈ edges) c c ∧ ReflTransGen (fun u v => (u, v) ∈ edges) c v := by
  have before : ∀ v ∈ nodes.filter (· ∉ taken), ∃ u ∈ nodes.filter (· ∉ taken), (u, v) ∈ edges := by
    intro v mem
    obtain ⟨node, left⟩ := List.mem_filter.mp mem
    have left := of_decide_eq_true left
    have blocked : ¬ edgesInto edges taken v = 0 := fun none => left
      ((sorting.taken_iff finished node).mpr (by rw [sorting.indeg, none]; rfl))
    rw [edgesInto_eq_zero] at blocked
    simp only [not_forall] at blocked
    obtain ⟨u, edge, there⟩ := blocked
    exact ⟨u, List.mem_filter.mpr ⟨starts _ edge, decide_eq_true there⟩, edge⟩
  exact exists_cycle_above before (List.mem_filter.mpr ⟨node, decide_eq_true left⟩)

/-- All the nodes were taken exactly if there is no cycle. -/
theorem seen_eq_iff (distinct : nodes.Nodup) (starts : ∀ e ∈ edges, e.1 ∈ nodes) :
    k.seen = nodes.length ↔ ∀ v, ¬ TransGen (fun u v => (u, v) ∈ edges) v v := by
  have once := sorting.once
  have known := sorting.known
  rw [finished, List.append_nil] at once known
  rw [sorting.seen]
  constructor
  · intro all v cycle
    have perm := (once.subperm known).perm_of_length_le (Nat.le_of_eq all.symm)
    obtain ⟨w, edge, -⟩ := TransGen.head'_iff.mp cycle
    exact sorting.not_taken cycle (perm.mem_iff.mpr (starts _ edge))
  · intro acyclic
    have all : nodes ⊆ taken := fun v node => by
      by_contra left
      obtain ⟨c, cycle, -⟩ := sorting.cycle_above finished starts node left
      exact acyclic c cycle
    exact Nat.le_antisymm (once.subperm known).length_le (distinct.subperm all).length_le

end

end Sorting

end

end Opensquid.Lib
