import Mathlib.Data.List.Basic
import Mathlib.Data.List.Nodup
import Mathlib.Data.List.Perm.Basic

/-!
# Lists that grow at the end

Where an entry stands in a list that has one more at its end, the distinct entries of a list
in the order of their first occurrences, and what a call makes of the entries of a list.
-/

namespace Opensquid.Lib

variable {α : Type*}

/-- An entry of a list with one more at its end is that one, or an entry of the list. -/
theorem concat_eq_append_cons_iff {xs before after : List α} {x y : α} :
    xs ++ [y] = before ++ x :: after ↔
      (before = xs ∧ x = y ∧ after = []) ∨ ∃ init, after = init ++ [y] ∧ xs = before ++ x :: init := by
  constructor
  · intro split
    rcases List.eq_nil_or_concat after with rfl | ⟨init, last, rfl⟩
    · obtain ⟨same, lasts⟩ := List.append_inj' split rfl
      exact .inl ⟨same.symm, (List.cons.inj lasts).1.symm, rfl⟩
    · rw [List.concat_eq_append, ← List.cons_append, ← List.append_assoc] at split
      obtain ⟨same, lasts⟩ := List.append_inj' split rfl
      rw [List.concat_eq_append, (List.cons.inj lasts).1]
      exact .inr ⟨init, rfl, same⟩
  · rintro (⟨rfl, rfl, rfl⟩ | ⟨init, rfl, rfl⟩)
    · rfl
    · rw [List.append_assoc, List.cons_append]

theorem nodup_eraseDups [DecidableEq α] : ∀ xs : List α, xs.eraseDups.Nodup
  | [] => List.nodup_nil
  | x :: xs => by
      rw [List.eraseDups_cons, List.nodup_cons, List.mem_eraseDups]
      refine ⟨fun mem => ?_, nodup_eraseDups _⟩
      simpa using (List.mem_filter.mp mem).2
  termination_by xs => xs.length
  decreasing_by exact Nat.lt_succ_of_le (List.length_filter_le _ xs)

/-- What stands before an entry of a list without repeats. -/
theorem pair_sublist_iff_mem_left {before after : List α} {x y : α}
    (distinct : (before ++ y :: after).Nodup) :
    [x, y].Sublist (before ++ y :: after) ↔ x ∈ before := by
  have apart := List.nodup_append.mp distinct
  constructor
  · intro pair
    rw [List.sublist_append_iff] at pair
    obtain ⟨front, back, split, left, right⟩ := pair
    cases front with
    | nil =>
        cases split
        have later : [y].Sublist after := by
          cases right with
          | cons _ right => exact (List.sublist_cons_self x [y]).trans right
          | cons_cons _ right => exact right
        exact absurd (List.singleton_sublist.mp later) (List.nodup_cons.mp apart.2.1).1
    | cons z front =>
        cases (List.cons.inj split).1
        exact left.subset List.mem_cons_self
  · intro mem
    exact (List.singleton_sublist.mpr mem).append
      (List.singleton_sublist.mpr List.mem_cons_self)

/-- What stands after it. -/
theorem pair_sublist_iff_mem_right {before after : List α} {x y : α}
    (distinct : (before ++ x :: after).Nodup) :
    [x, y].Sublist (before ++ x :: after) ↔ y ∈ after := by
  have apart := List.nodup_append.mp distinct
  constructor
  · intro pair
    rw [List.sublist_append_iff] at pair
    obtain ⟨front, back, split, left, right⟩ := pair
    cases front with
    | nil =>
        cases split
        cases right with
        | cons _ right =>
            exact absurd (right.subset List.mem_cons_self) (List.nodup_cons.mp apart.2.1).1
        | cons_cons _ right => exact List.singleton_sublist.mp right
    | cons z front =>
        cases (List.cons.inj split).1
        exact absurd rfl (apart.2.2 x (left.subset List.mem_cons_self) x List.mem_cons_self)
  · intro mem
    exact ((List.singleton_sublist.mpr mem).cons_cons x).trans (List.sublist_append_right before _)

/-- A loop that succeeds keeps an invariant of the entries that are left. -/
theorem foldlM_ok_invariant {ε σ : Type*} {f : σ → α → Except ε σ} (inv : List α → σ → Prop)
    (step : ∀ x rest s t, inv (x :: rest) s → f s x = .ok t → inv rest t) {xs : List α} {s t : σ}
    (start : inv xs s) (done : xs.foldlM f s = .ok t) : inv [] t := by
  induction xs generalizing s with
  | nil =>
      cases done
      exact start
  | cons x xs ih =>
      rw [List.foldlM_cons] at done
      cases first : f s x with
      | error e =>
          rw [first] at done
          cases done
      | ok u =>
          rw [first] at done
          exact ih (step x xs s u start first) done

/-- Whether a loop that may fail succeeds, where that of a step does not depend on the state. -/
theorem exists_foldlM_ok {ε σ : Type*} {f : σ → α → Except ε σ} {good : α → Prop}
    (step : ∀ s x, (∃ t, f s x = .ok t) ↔ good x) (xs : List α) (s : σ) :
    (∃ t, xs.foldlM f s = .ok t) ↔ ∀ x ∈ xs, good x := by
  induction xs generalizing s with
  | nil => exact ⟨fun _ => (nofun), fun _ => ⟨s, rfl⟩⟩
  | cons x xs ih =>
      rw [List.foldlM_cons, List.forall_mem_cons, ← step s x]
      cases first : f s x with
      | error e => exact ⟨fun ⟨_, done⟩ => (nomatch done), fun ⟨⟨_, done⟩, _⟩ => (nomatch done)⟩
      | ok t => exact (ih t).trans ⟨fun rest => ⟨⟨t, rfl⟩, rest⟩, fun both => both.2⟩

/-! ## Entry by entry -/

theorem exists_of_mapM {α β : Type} {f : α → Option β} {items : List α} {results : List β}
    (done : items.mapM f = some results) {result : β} (mem : result ∈ results) :
    ∃ item ∈ items, f item = some result := by
  induction items generalizing results with
  | nil =>
      cases done
      cases mem
  | cons item rest ih =>
      rw [List.mapM_cons] at done
      obtain ⟨first, here, done⟩ := Option.bind_eq_some_iff.mp done
      obtain ⟨more, later, done⟩ := Option.bind_eq_some_iff.mp done
      cases done
      rcases List.mem_cons.mp mem with rfl | mem
      · exact ⟨item, List.mem_cons_self, here⟩
      · obtain ⟨item', mem', same⟩ := ih later mem
        exact ⟨item', List.mem_cons_of_mem _ mem', same⟩

theorem mapM_of_forall {α β : Type} {f : α → Option β} {g : α → β} {items : List α}
    (each : ∀ item ∈ items, f item = some (g item)) : items.mapM f = some (items.map g) := by
  induction items with
  | nil => rfl
  | cons item rest ih =>
      obtain ⟨here, others⟩ := List.forall_mem_cons.mp each
      rw [List.mapM_cons, here, ih others]
      rfl

/-- The results of lists of entries, put together. -/
theorem exists_mapM_flatten_perm {α β : Type} {f : α → Option (List β)} {g : α → List β}
    {items : List α} (each : ∀ item ∈ items, ∃ found, f item = some found ∧ found.Perm (g item)) :
    ∃ found, items.mapM f = some found ∧ found.flatten.Perm (items.flatMap g) := by
  induction items with
  | nil => exact ⟨[], rfl, .refl _⟩
  | cons item rest ih =>
      obtain ⟨⟨here, done, perm⟩, others⟩ := List.forall_mem_cons.mp each
      obtain ⟨more, done', perm'⟩ := ih others
      refine ⟨here :: more, ?_, ?_⟩
      · rw [List.mapM_cons, done, done']
        rfl
      · rw [List.flatten_cons, List.flatMap_cons]
        exact perm.append perm'

theorem flatMap_filter_perm {α β : Type} [DecidableEq β] {kinds : List β} (distinct : kinds.Nodup)
    (kind : α → β) (items : List α) (complete : ∀ x ∈ items, kind x ∈ kinds) :
    (kinds.flatMap fun k => items.filter fun x => kind x = k).Perm items := by
  induction kinds generalizing items with
  | nil =>
      cases items with
      | nil => exact .refl _
      | cons x items => exact absurd (complete x List.mem_cons_self) List.not_mem_nil
  | cons k kinds ih =>
      rw [List.nodup_cons] at distinct
      have rest := ih distinct.2 (items.filter fun x => ¬ kind x = k) fun x mem => by
        obtain ⟨inside, other⟩ := List.mem_filter.mp mem
        exact List.mem_of_ne_of_mem (of_decide_eq_true other) (complete x inside)
      have same : (kinds.flatMap fun k' => (items.filter fun x => ¬ kind x = k).filter
          fun x => kind x = k') = kinds.flatMap fun k' => items.filter fun x => kind x = k' := by
        refine List.flatMap_congr fun k' later => ?_
        rw [List.filter_filter]
        refine List.filter_congr fun x _ => ?_
        by_cases here : kind x = k'
        · have other : ¬ k' = k := fun first => distinct.1 (first ▸ later)
          simp [here, other]
        · simp [here]
      rw [List.flatMap_cons, ← same]
      refine (rest.append_left _).trans ?_
      simpa using List.filter_append_perm (fun x => decide (kind x = k)) items

end Opensquid.Lib
