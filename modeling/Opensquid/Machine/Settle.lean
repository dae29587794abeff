import Mathlib.Algebra.Order.BigOperators.Group.List
import Mathlib.Algebra.Order.Ring.Nat
import Opensquid.Machine.Statechart

/-!
# How a macrostep ends

`settle` fires joins until none is enabled, 10,000 at most. `settle_ends`: it ends in a settled
configuration exactly when so many joins are enough, and they are where the parallels have weights
such that a join finishes, on entry, parallels that weigh less than the one it leaves.

Validation asks for neither: a join may lead back to its own parallel (`restart_never_settles`).
-/

namespace Opensquid.Machine

open Opensquid.Lib.PathText

variable (sc : Statechart) (evalWhen : EvalWhen)

/-! ## Chains of joins -/

/-- No active parallel is done and has an enabled join. -/
def Settled (config : Configuration) : Prop :=
  ∀ p ∈ parallelPaths sc, isActive config p = true → allRegionsFinal sc p config = true →
    joinEdge sc evalWhen p = none

/-- So many joins, one after the other. -/
inductive Joins : Nat → Configuration × LastActive → Configuration × LastActive → Prop
  | done {s : Configuration × LastActive} : Joins 0 s s
  | fire {n : Nat} {s t u : Configuration × LastActive} {p : String} {join : Transition}
      (next : nextJoin sc evalWhen s.1 = some (p, join)) (fired : fireJoin sc s.1 s.2 p join = some t)
      (rest : Joins n t u) : Joins (n + 1) s u

/-- The macrostep returns a settled configuration, on which it does nothing. -/
def Settles (config : Configuration) (lastActive : LastActive) : Prop :=
  ∃ next recorded, settle sc config evalWhen lastActive = some (next, recorded) ∧
    Settled sc evalWhen next ∧ settle sc next evalWhen recorded = some (next, recorded)

variable {sc evalWhen}

theorem nextJoin_eq_none_iff {config : Configuration} :
    nextJoin sc evalWhen config = none ↔ Settled sc evalWhen config := by
  rw [nextJoin, List.findSome?_eq_none_iff]
  refine forall₂_congr fun p _ => ?_
  by_cases done : isActive config p = true ∧ allRegionsFinal sc p config = true
  · rw [if_pos done, Option.map_eq_none_iff]
    exact ⟨fun none _ _ => none, fun none => none done.1 done.2⟩
  · rw [if_neg done]
    exact iff_of_true rfl fun active final => absurd ⟨active, final⟩ done

theorem nextJoin_eq_some {config : Configuration} {p : String} {t : Transition}
    (next : nextJoin sc evalWhen config = some (p, t)) :
    p ∈ parallelPaths sc ∧ isActive config p = true ∧ allRegionsFinal sc p config = true ∧
      joinEdge sc evalWhen p = some t := by
  obtain ⟨q, mem, found⟩ := List.exists_of_findSome?_eq_some next
  split at found
  · rename_i done
    obtain ⟨t', edge, same⟩ := Option.map_eq_some_iff.mp found
    cases same
    exact ⟨mem, done.1, done.2, edge⟩
  · cases found

theorem joinEdge_eq_some {p : String} {t : Transition} (edge : joinEdge sc evalWhen p = some t) :
    t ∈ sc.transitions ∧ t.from = p ∧ t.on = none := by
  unfold joinEdge at edge
  have passes := List.find?_some edge
  have facts := of_decide_eq_true passes
  exact ⟨List.mem_of_find?_eq_some edge, facts.1, facts.2.1⟩

/-- Where the joins end within the number, so does the loop. -/
theorem Joins.settleWithin {n fuel : Nat} {s u : Configuration × LastActive}
    (joins : Joins sc evalWhen n s u) (settled : Settled sc evalWhen u.1) (enough : n ≤ fuel) :
    settleWithin sc evalWhen fuel s.1 s.2 = some u := by
  induction joins generalizing fuel with
  | done =>
      cases fuel with
      | zero => rfl
      | succ fuel => rw [Machine.settleWithin, nextJoin_eq_none_iff.mpr settled]
  | fire next fired rest ih =>
      cases fuel with
      | zero => omega
      | succ fuel =>
          rw [Machine.settleWithin, next]
          dsimp only
          rw [fired]
          exact ih settled (by omega)

/-- The loop has fired joins, and either none is left or all that it may. -/
theorem exists_joins_of_settleWithin {fuel : Nat} {s u : Configuration × LastActive}
    (done : settleWithin sc evalWhen fuel s.1 s.2 = some u) :
    ∃ n ≤ fuel, Joins sc evalWhen n s u ∧ (Settled sc evalWhen u.1 ∨ n = fuel) := by
  induction fuel generalizing s with
  | zero =>
      cases done
      exact ⟨0, le_rfl, .done, .inr rfl⟩
  | succ fuel ih =>
      rw [settleWithin] at done
      cases next : nextJoin sc evalWhen s.1 with
      | none =>
          rw [next] at done
          cases done
          exact ⟨0, Nat.zero_le _, .done, .inl (nextJoin_eq_none_iff.mp next)⟩
      | some edge =>
          rw [next] at done
          obtain ⟨t, fired, rest⟩ := Option.bind_eq_some_iff.mp done
          obtain ⟨n, enough, joins, ends⟩ := ih rest
          exact ⟨n + 1, Nat.succ_le_succ enough, .fire next fired joins,
            ends.imp_right (congrArg Nat.succ)⟩

theorem settles_iff {config : Configuration} {lastActive : LastActive} :
    Settles sc evalWhen config lastActive ↔
      ∃ n ≤ 10000, ∃ u, Joins sc evalWhen n (config, lastActive) u ∧ Settled sc evalWhen u.1 := by
  constructor
  · rintro ⟨next, recorded, done, settled, _⟩
    obtain ⟨n, enough, joins, _⟩ := exists_joins_of_settleWithin (s := (config, lastActive)) done
    exact ⟨n, enough, _, joins, settled⟩
  · rintro ⟨n, enough, ⟨next, recorded⟩, joins, settled⟩
    refine ⟨next, recorded, joins.settleWithin settled enough, settled, ?_⟩
    exact Joins.done.settleWithin settled (Nat.zero_le _)

/-! ## Joins that descend -/

/-- The leaf is a final node that is the region at that path, or directly inside it. -/
def marksDone (sc : Statechart) (rp leaf : String) : Bool :=
  (resolveNode sc leaf).any StateNode.isFinal ∧
    (leaf = rp ∨ startsWith leaf (rp ++ String.singleton PATH_SEP) ∧
      (segs PATH_SEP leaf).length = (segs PATH_SEP rp).length + 1)

def regionDone (sc : Statechart) (config : Configuration) (rp : String) : Bool :=
  config.any (marksDone sc rp)

def StateNode.regions : StateNode → List (String × StateNode)
  | .parallel regions => regions
  | .leaf | .final | .history .. | .compound .. => []

/-- The regions of a parallel. -/
def regionsAt (sc : Statechart) (p : String) : List (String × StateNode) :=
  ((resolveNode sc p).map StateNode.regions).getD []

/-- Leaves that, by themselves, finish a region; a parallel without regions only has to be
active. -/
def Finishes (sc : Statechart) (leaves : List String) (p : String) : Bool :=
  (regionsAt sc p).any (fun region => regionDone sc leaves (joinPath [p, region.1])) ||
    (regionsAt sc p).isEmpty && isActive leaves p

/-- Every region is done, in a parallel that has some or is active. -/
def finished (sc : Statechart) (config : Configuration) (p : String) : Bool :=
  allRegionsFinal sc p config && (!(regionsAt sc p).isEmpty || isActive config p)

/-- What the parallels weigh that meet the condition. -/
def weigh (sc : Statechart) (weight : String → Nat) (pass : String → Bool) : Nat :=
  ((parallelPaths sc).map fun p => if pass p then weight p else 0).sum

/-- The target of a join is entered at leaves, and the parallels that they finish weigh less
together than the one that is left. -/
def Descending (sc : Statechart) (weight : String → Nat) : Prop :=
  ∀ t ∈ sc.transitions, t.on = none → t.from ∈ parallelPaths sc →
    (resolveNode sc t.to).any StateNode.isHistory = false ∧
    ∃ entered, enterLeaves sc t.to = some entered ∧
      weigh sc weight (Finishes sc entered) < weight t.from

/-- Parallels that pass anew are paid for by one that no longer does. -/
theorem weigh_add_le (weight : String → Nat) {a b c : String → Bool} {p : String}
    (mem : p ∈ parallelPaths sc) (left : b p = true)
    (covered : ∀ q, a q = true → (b q = true ∧ q ≠ p) ∨ c q = true) :
    weigh sc weight a + weight p ≤ weigh sc weight b + weigh sc weight c := by
  have only : weight p ≤ ((parallelPaths sc).map fun q => if q = p then weight q else 0).sum := by
    refine List.single_le_sum (fun _ _ => Nat.zero_le _) _ ?_
    exact List.mem_map.mpr ⟨p, mem, if_pos rfl⟩
  refine (Nat.add_le_add_left only _).trans ?_
  rw [weigh, weigh, weigh, ← List.sum_map_add, ← List.sum_map_add]
  refine List.sum_le_sum fun q _ => ?_
  by_cases same : q = p
  · subst same
    rw [if_pos rfl, if_pos left]
    cases passed : a q with
    | false => rw [if_neg Bool.false_ne_true]; omega
    | true =>
        rcases covered q passed with ⟨_, other⟩ | finishes
        · exact absurd rfl other
        · rw [if_pos finishes, if_pos rfl]
  · rw [if_neg same]
    cases passed : a q with
    | false => rw [if_neg Bool.false_ne_true]; omega
    | true =>
        rcases covered q passed with ⟨before, _⟩ | finishes
        · rw [if_pos before, if_pos rfl]; omega
        · rw [if_pos finishes, if_pos rfl]; omega

theorem allRegionsFinal_eq {sc : Statechart} {p : String} {config : Configuration} :
    allRegionsFinal sc p config = true ↔ (resolveNode sc p).any StateNode.isParallel = true ∧
      ∀ region ∈ regionsAt sc p, regionDone sc config (joinPath [p, region.1]) = true := by
  rw [allRegionsFinal, regionsAt]
  cases resolveNode sc p with
  | none => exact iff_of_false Bool.false_ne_true fun both => Bool.false_ne_true both.1
  | some node =>
      cases node with
      | parallel regions => exact List.all_eq_true.trans (and_iff_right rfl).symm
      | leaf | «final» | history | compound =>
          exact iff_of_false Bool.false_ne_true fun both => Bool.false_ne_true both.1

theorem mem_descendantsOf_of_below {config : Configuration} {leaf p : String}
    (mem : leaf ∈ config) (below : leaf = p ∨ startsWith leaf (p ++ String.singleton PATH_SEP)) :
    leaf ∈ descendantsOf config p := by
  rw [descendantsOf]
  split
  · exact mem
  · exact List.mem_filter.mpr ⟨mem, decide_eq_true below⟩

/-- A leaf that marks a region as done is inside the parallel. -/
theorem below_of_marksDone {leaf p r : String} (proper : p ≠ "")
    (done : marksDone sc (joinPath [p, r]) leaf = true) :
    leaf = p ∨ startsWith leaf (p ++ String.singleton PATH_SEP) = true := by
  obtain ⟨_, inside⟩ := of_decide_eq_true done
  by_cases unnamed : r = ""
  · subst unnamed
    rw [joinPath_empty] at inside
    exact inside.imp_right And.left
  · rw [joinPath_pair proper unnamed] at inside
    refine .inr (startsWith_iff.mpr ?_)
    rcases inside with rfl | ⟨deeper, _⟩
    · exact ⟨r, rfl⟩
    · obtain ⟨rest, same⟩ := startsWith_iff.mp deeper
      exact ⟨r ++ String.singleton PATH_SEP ++ rest, by rw [same]; simp only [String.append_assoc]⟩

/-- After a join, what is finished was so before and is not what was left, or is finished by what
was entered. -/
theorem finished_of_join {config : Configuration} (entered : List String) {p q : String}
    (done : finished sc (exitAndEnter config (descendantsOf config p) entered) q = true) :
    (finished sc config q = true ∧ q ≠ p) ∨ Finishes sc entered q = true := by
  by_cases finishes : Finishes sc entered q = true
  · exact .inr finishes
  refine .inl ?_
  obtain ⟨final, some'⟩ := Bool.and_eq_true_iff.mp done
  obtain ⟨parallel, regions⟩ := allRegionsFinal_eq.mp final
  rw [Finishes, Bool.or_eq_true, not_or] at finishes
  -- what marks a region as done has stayed
  have stayed : ∀ region ∈ regionsAt sc q, ∃ leaf ∈ config, leaf ∉ descendantsOf config p ∧
      marksDone sc (joinPath [q, region.1]) leaf = true := by
    intro region mem
    obtain ⟨leaf, after, marks⟩ := List.any_eq_true.mp (regions region mem)
    rcases mem_exitAndEnter.mp after with ⟨before, kept⟩ | new
    · exact ⟨leaf, before, kept, marks⟩
    · refine absurd (List.any_eq_true.mpr ⟨region, mem, ?_⟩) finishes.1
      exact List.any_eq_true.mpr ⟨leaf, new, marks⟩
  have active : (regionsAt sc q).isEmpty = true → ∃ leaf ∈ config,
      leaf ∉ descendantsOf config p ∧
        (leaf = q ∨ startsWith leaf (q ++ String.singleton PATH_SEP) = true) := by
    intro none
    rw [none, Bool.not_true, Bool.false_or] at some'
    obtain ⟨leaf, after, here⟩ := List.any_eq_true.mp some'
    rcases mem_exitAndEnter.mp after with ⟨before, kept⟩ | new
    · exact ⟨leaf, before, kept, of_decide_eq_true here⟩
    · refine absurd (Bool.and_eq_true_iff.mpr ⟨none, ?_⟩) finishes.2
      exact List.any_eq_true.mpr ⟨leaf, new, here⟩
  refine ⟨Bool.and_eq_true_iff.mpr ⟨allRegionsFinal_eq.mpr ⟨parallel, fun region mem => ?_⟩, ?_⟩, ?_⟩
  · obtain ⟨leaf, before, _, marks⟩ := stayed region mem
    exact List.any_eq_true.mpr ⟨leaf, before, marks⟩
  · cases none : (regionsAt sc q).isEmpty with
    | false => rfl
    | true =>
        obtain ⟨leaf, before, _, here⟩ := active none
        exact List.any_eq_true.mpr ⟨leaf, before, decide_eq_true here⟩
  · intro same
    subst same
    cases regionsHere : regionsAt sc q with
    | nil =>
        obtain ⟨leaf, before, kept, here⟩ := active (by rw [regionsHere]; rfl)
        exact kept (mem_descendantsOf_of_below before here)
    | cons region rest =>
        obtain ⟨leaf, before, kept, marks⟩ := stayed region (regionsHere ▸ List.mem_cons_self)
        by_cases root : q = ""
        · exact kept (by rw [descendantsOf, if_pos root]; exact before)
        · exact kept (mem_descendantsOf_of_below before (below_of_marksDone root marks))

theorem finished_of_active {config : Configuration} {p : String} (active : isActive config p = true)
    (final : allRegionsFinal sc p config = true) : finished sc config p = true := by
  rw [finished, final, active, Bool.or_true]
  rfl

/-- A join takes more weight off than it puts on. -/
theorem weigh_fireJoin {weight : String → Nat} (descending : Descending sc weight)
    {config : Configuration} (lastActive : LastActive) {p : String} {t : Transition}
    (next : nextJoin sc evalWhen config = some (p, t)) :
    ∃ config' recorded, fireJoin sc config lastActive p t = some (config', recorded) ∧
      weigh sc weight (finished sc config') < weigh sc weight (finished sc config) := by
  obtain ⟨mem, active, final, edge⟩ := nextJoin_eq_some next
  obtain ⟨declared, rfl, eventless⟩ := joinEdge_eq_some edge
  obtain ⟨plain, entered, entry, less⟩ := descending t declared eventless mem
  have entry' : ∀ memory, enterTarget sc t.to memory = some entered := fun memory => by
    rw [← entry, enterTarget]
    cases node : resolveNode sc t.to with
    | none => rfl
    | some node' =>
        cases node' with
        | history depth default => rw [node] at plain; cases plain
        | leaf | «final» | compound | parallel => rfl
  refine ⟨_, _, by rw [fireJoin, entry']; rfl, ?_⟩
  have paid := weigh_add_le weight mem (finished_of_active active final)
    fun q done => finished_of_join entered done
  omega

/-- Joins that descend come to an end within what is finished weighs. -/
theorem exists_joins_of_descending {weight : String → Nat} (descending : Descending sc weight)
    {bound : Nat} {s : Configuration × LastActive}
    (enough : weigh sc weight (finished sc s.1) ≤ bound) :
    ∃ n ≤ bound, ∃ u, Joins sc evalWhen n s u ∧ Settled sc evalWhen u.1 := by
  induction bound generalizing s with
  | zero =>
      refine ⟨0, le_rfl, s, .done, nextJoin_eq_none_iff.mp ?_⟩
      cases next : nextJoin sc evalWhen s.1 with
      | none => rfl
      | some edge =>
          obtain ⟨_, _, _, less⟩ := weigh_fireJoin descending s.2 next
          omega
  | succ bound ih =>
      cases next : nextJoin sc evalWhen s.1 with
      | none => exact ⟨0, Nat.zero_le _, s, .done, nextJoin_eq_none_iff.mp next⟩
      | some edge =>
          obtain ⟨config', recorded, fired, less⟩ := weigh_fireJoin descending s.2 next
          have enough' : weigh sc weight (finished sc config') ≤ bound := by omega
          obtain ⟨n, within, u, joins, settled⟩ := ih (s := (config', recorded)) enough'
          exact ⟨n + 1, Nat.succ_le_succ within, u, .fire next fired joins, settled⟩

/-- The macrostep ends in a settled configuration, or after 10,000 joins. It settles exactly when
so many are enough, and so it does where joins descend and what is finished at the start weighs no
more. -/
theorem settle_ends (sc : Statechart) (evalWhen : EvalWhen) (config : Configuration)
    (lastActive : LastActive) :
    (∀ next recorded, settle sc config evalWhen lastActive = some (next, recorded) →
      Settled sc evalWhen next ∨
        Joins sc evalWhen 10000 (config, lastActive) (next, recorded)) ∧
    (Settles sc evalWhen config lastActive ↔
      ∃ n ≤ 10000, ∃ u, Joins sc evalWhen n (config, lastActive) u ∧ Settled sc evalWhen u.1) ∧
    ∀ weight, Descending sc weight → weigh sc weight (finished sc config) ≤ 10000 →
      Settles sc evalWhen config lastActive := by
  refine ⟨fun next recorded done => ?_, settles_iff, fun weight descending enough => ?_⟩
  · obtain ⟨n, _, joins, settled | all⟩ :=
      exists_joins_of_settleWithin (s := (config, lastActive)) done
    · exact .inl settled
    · exact .inr (all ▸ joins)
  · exact settles_iff.mpr (exists_joins_of_descending (s := (config, lastActive)) descending enough)

/-! ## A join that leads back -/

/-- Two regions that are done at once, and a join that starts them again. -/
def restart : Statechart where
  initial := "checks"
  root := [("checks", .parallel [("lint", .final), ("test", .final)]), ("shipped", .leaf)]
  transitions := [{ «from» := "checks", «to» := "checks" }]

theorem settleWithin_restart (lastActive : LastActive) (fuel : Nat) :
    settleWithin restart none fuel ["checks/lint", "checks/test"] lastActive =
      some (["checks/lint", "checks/test"], lastActive) := by
  induction fuel with
  | zero => rfl
  | succ fuel ih =>
      have next : nextJoin restart none ["checks/lint", "checks/test"] =
        some ("checks", { «from» := "checks", «to» := "checks" }) := by decide +kernel
      have fired : fireJoin restart ["checks/lint", "checks/test"] lastActive "checks"
        { «from» := "checks", «to» := "checks" } = some (["checks/lint", "checks/test"], lastActive) :=
        rfl
      rw [settleWithin, next]
      dsimp only
      rw [fired]
      exact ih

/-- The chart is accepted, and its initial configuration never settles. -/
theorem restart_never_settles : validateStatechart restart = some [] ∧
    initialConfig restart = some ["checks/lint", "checks/test"] ∧
    ∃ next recorded,
      settle restart ["checks/lint", "checks/test"] none (fun _ => none) = some (next, recorded) ∧
      ¬ Settled restart none next := by
  refine ⟨by decide +kernel, by decide +kernel, _, _, settleWithin_restart _ _, fun settled => ?_⟩
  have left := settled "checks" (by decide +kernel) (by decide +kernel) (by decide +kernel)
  cases left

/-! ## Joins that lead out -/

/-- The join of the inner parallel finishes a region of the outer one. -/
def nested : Statechart where
  initial := "release"
  root :=
    [("release", .parallel
      [("gates", .compound "run"
        [("run", .parallel [("lint", .final), ("test", .final)]), ("passed", .final)]),
        ("notes", .final)]),
      ("shipped", .leaf)]
  transitions :=
    [{ «from» := "release/gates/run", «to» := "release/gates/passed" },
      { «from» := "release", «to» := "shipped" }]

def nestedWeight (p : String) : Nat := if p = "release" then 1 else 2

theorem settle_ends_nested : validateStatechart nested = some [] ∧
    initialConfig nested =
      some ["release/gates/run/lint", "release/gates/run/test", "release/notes"] ∧
    Settles nested none ["release/gates/run/lint", "release/gates/run/test", "release/notes"]
      fun _ => none := by
  refine ⟨by decide +kernel, by decide +kernel, ?_⟩
  refine (settle_ends nested none _ _).2.2 nestedWeight ?_ (by decide +kernel)
  intro t mem _ _
  rcases List.mem_pair.mp mem with rfl | rfl
  · exact ⟨by decide +kernel, ["release/gates/passed"], by decide +kernel, by decide +kernel⟩
  · exact ⟨by decide +kernel, ["shipped"], by decide +kernel, by decide +kernel⟩

end Opensquid.Machine
