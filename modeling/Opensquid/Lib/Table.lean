import Mathlib.Data.List.Nodup

/-!
# Keyed tables

The rows of a table with a primary key, in the order of their insertion. A lookup
after an operation is given by one lemma for the key it writes and one for the
others.
-/

namespace Opensquid.Lib

structure Table {ρ κ : Type} (key : ρ → κ) where
  rows : List ρ
  distinct : (rows.map key).Nodup

namespace Table

variable {ρ κ : Type} {key : ρ → κ}

def empty : Table key := ⟨[], List.nodup_nil⟩

variable [DecidableEq κ]

/-- `SELECT * WHERE key = k`. -/
def get (t : Table key) (k : κ) : Option ρ := t.rows.find? fun r => key r = k

theorem key_of_get {t : Table key} {k : κ} {r : ρ} (present : t.get k = some r) : key r = k := by
  have found : decide (key r = k) = true := List.find?_some (p := fun x => decide (key x = k)) present
  exact of_decide_eq_true found

theorem mem_of_get {t : Table key} {k : κ} {r : ρ} (present : t.get k = some r) : r ∈ t.rows :=
  List.mem_of_find?_eq_some present

theorem find_of_mem {rows : List ρ} (distinct : (rows.map key).Nodup) {r : ρ} (mem : r ∈ rows) :
    rows.find? (fun x => key x = key r) = some r := by
  induction rows with
  | nil => cases mem
  | cons x rest ih =>
      rw [List.map_cons, List.nodup_cons] at distinct
      rcases List.mem_cons.mp mem with rfl | later
      · exact List.find?_cons_of_pos (decide_eq_true rfl)
      · have other : key x ≠ key r := fun same => distinct.1 (same ▸ List.mem_map_of_mem later)
        rw [List.find?_cons_of_neg (by simpa using other)]
        exact ih distinct.2 later

theorem mem_rows_iff {t : Table key} {r : ρ} : r ∈ t.rows ↔ t.get (key r) = some r :=
  ⟨find_of_mem t.distinct, mem_of_get⟩

theorem get_eq_some_iff {t : Table key} {k : κ} {r : ρ} :
    t.get k = some r ↔ r ∈ t.rows ∧ key r = k := by
  constructor
  · intro present
    exact ⟨mem_of_get present, key_of_get present⟩
  · rintro ⟨mem, rfl⟩
    exact mem_rows_iff.mp mem

theorem get_eq_none_iff {t : Table key} {k : κ} : t.get k = none ↔ ∀ r ∈ t.rows, key r ≠ k := by
  simp only [get, List.find?_eq_none, decide_eq_true_eq]

/-- `UPDATE SET f WHERE key = k`. -/
def update (t : Table key) (k : κ) (f : ρ → ρ) (keep : ∀ r, key r = k → key (f r) = k) :
    Table key where
  rows := t.rows.map fun r => if key r = k then f r else r
  distinct := by
    have same : (key ∘ fun r => if key r = k then f r else r) = key := by
      funext r
      simp only [Function.comp_apply]
      split
      · rename_i here
        rw [keep r here, here]
      · rfl
    rw [List.map_map, same]
    exact t.distinct

theorem get_update_self {t : Table key} {k : κ} {f : ρ → ρ} {keep : ∀ r, key r = k → key (f r) = k} :
    (t.update k f keep).get k = (t.get k).map f := by
  cases present : t.get k with
  | none =>
      refine get_eq_none_iff.mpr fun r mem => ?_
      obtain ⟨old, known, rfl⟩ := List.mem_map.mp mem
      have other := get_eq_none_iff.mp present old known
      rwa [if_neg other]
  | some r =>
      obtain ⟨mem, rfl⟩ := get_eq_some_iff.mp present
      exact get_eq_some_iff.mpr
        ⟨List.mem_map.mpr ⟨r, mem, if_pos rfl⟩, keep r rfl⟩

theorem get_update_of_ne {t : Table key} {k k' : κ} {f : ρ → ρ}
    {keep : ∀ r, key r = k → key (f r) = k} (other : k' ≠ k) :
    (t.update k f keep).get k' = t.get k' := by
  cases present : t.get k' with
  | none =>
      refine get_eq_none_iff.mpr fun r mem => ?_
      obtain ⟨old, known, rfl⟩ := List.mem_map.mp mem
      split
      · rename_i here
        rw [keep old here]
        exact other.symm
      · exact get_eq_none_iff.mp present old known
  | some r =>
      obtain ⟨mem, rfl⟩ := get_eq_some_iff.mp present
      exact get_eq_some_iff.mpr ⟨List.mem_map.mpr ⟨r, mem, if_neg other⟩, rfl⟩

theorem get_update {t : Table key} {k k' : κ} {f : ρ → ρ} {keep : ∀ r, key r = k → key (f r) = k} :
    (t.update k f keep).get k' = (t.get k').map fun r => if key r = k then f r else r := by
  by_cases same : k' = k
  · subst same
    rw [get_update_self]
    cases present : t.get k' with
    | none => rfl
    | some r => rw [Option.map_some, Option.map_some, if_pos (key_of_get present)]
  · rw [get_update_of_ne same]
    cases present : t.get k' with
    | none => rfl
    | some r => rw [Option.map_some, if_neg (key_of_get present ▸ same)]

theorem update_eq_self {t : Table key} {k : κ} {f : ρ → ρ} {keep : ∀ r, key r = k → key (f r) = k}
    (same : ∀ r, t.get k = some r → f r = r) : t.update k f keep = t := by
  have rows : (t.update k f keep).rows = t.rows := by
    rw [update]
    refine (List.map_congr_left fun r mem => ?_).trans (List.map_id t.rows)
    split
    · rename_i here
      exact same r (get_eq_some_iff.mpr ⟨mem, here⟩)
    · rfl
  generalize t.update k f keep = u at rows
  cases t
  cases u
  cases rows
  rfl

/-- A new row at the end. -/
def add (t : Table key) (r : ρ) (new : t.get (key r) = none) : Table key where
  rows := t.rows ++ [r]
  distinct := by
    rw [List.map_append]
    refine List.Nodup.append t.distinct (List.nodup_singleton _) fun k old added => ?_
    obtain ⟨x, mem, rfl⟩ := List.mem_map.mp old
    exact get_eq_none_iff.mp new x mem (List.mem_singleton.mp added)

/-- `INSERT … ON CONFLICT DO UPDATE`: the row replaces the one with its key. -/
def put (t : Table key) (r : ρ) : Table key :=
  if new : t.get (key r) = none then t.add r new
  else t.update (key r) (fun _ => r) fun _ _ => rfl

theorem get_add_self {t : Table key} {r : ρ} {new : t.get (key r) = none} :
    (t.add r new).get (key r) = some r :=
  get_eq_some_iff.mpr ⟨List.mem_append_right _ (List.mem_singleton_self r), rfl⟩

theorem get_add_of_ne {t : Table key} {r : ρ} {new : t.get (key r) = none} {k : κ}
    (other : k ≠ key r) : (t.add r new).get k = t.get k := by
  rw [get, get, add, List.find?_append, List.find?_singleton, if_neg (by simpa using other.symm),
    Option.or_none]

theorem get_put_self {t : Table key} {r : ρ} : (t.put r).get (key r) = some r := by
  rw [put]
  split
  · exact get_add_self
  · rename_i old
    obtain ⟨x, present⟩ := Option.ne_none_iff_exists'.mp old
    rw [get_update_self, present, Option.map_some]

theorem get_put_of_ne {t : Table key} {r : ρ} {k : κ} (other : k ≠ key r) :
    (t.put r).get k = t.get k := by
  rw [put]
  split
  · exact get_add_of_ne other
  · exact get_update_of_ne other

theorem mem_update {t : Table key} {k : κ} {f : ρ → ρ} {keep : ∀ r, key r = k → key (f r) = k}
    {x : ρ} (mem : x ∈ (t.update k f keep).rows) :
    (∃ r ∈ t.rows, key r = k ∧ x = f r) ∨ (x ∈ t.rows ∧ key x ≠ k) := by
  obtain ⟨r, known, rfl⟩ := List.mem_map.mp mem
  split
  · rename_i here
    exact .inl ⟨r, known, here, rfl⟩
  · rename_i other
    exact .inr ⟨known, other⟩

theorem mem_put {t : Table key} {r x : ρ} (mem : x ∈ (t.put r).rows) : x = r ∨ x ∈ t.rows := by
  rw [put] at mem
  split at mem
  · rcases List.mem_append.mp mem with old | added
    · exact .inr old
    · exact .inl (List.mem_singleton.mp added)
  · rcases mem_update mem with ⟨_, _, _, rfl⟩ | ⟨old, _⟩
    · exact .inl rfl
    · exact .inr old

theorem mem_put_iff {t : Table key} {r x : ρ} :
    x ∈ (t.put r).rows ↔ x = r ∨ x ∈ t.rows ∧ key x ≠ key r := by
  rw [mem_rows_iff]
  by_cases same : key x = key r
  · rw [same, get_put_self]
    simp [eq_comm]
  · rw [get_put_of_ne same, ← mem_rows_iff]
    refine ⟨fun old => .inr ⟨old, same⟩, fun either => ?_⟩
    rcases either with rfl | ⟨old, _⟩
    · exact absurd rfl same
    · exact old

/-- `DELETE WHERE key = k`. -/
def delete (t : Table key) (k : κ) : Table key where
  rows := t.rows.filter fun r => key r ≠ k
  distinct := t.distinct.sublist (List.filter_sublist.map key)

theorem mem_delete {t : Table key} {k : κ} {x : ρ} :
    x ∈ (t.delete k).rows ↔ x ∈ t.rows ∧ key x ≠ k := by
  rw [delete, List.mem_filter, decide_eq_true_eq]

theorem get_delete_self {t : Table key} {k : κ} : (t.delete k).get k = none :=
  get_eq_none_iff.mpr fun _ mem => (mem_delete.mp mem).2

theorem get_delete_of_ne {t : Table key} {k k' : κ} (other : k' ≠ k) :
    (t.delete k).get k' = t.get k' := by
  cases present : t.get k' with
  | none =>
      exact get_eq_none_iff.mpr fun r mem => get_eq_none_iff.mp present r (mem_delete.mp mem).1
  | some r =>
      obtain ⟨mem, rfl⟩ := get_eq_some_iff.mp present
      exact mem_rows_iff.mp (mem_delete.mpr ⟨mem, other⟩)

/-- `DELETE WHERE` the condition fails. -/
def filter (t : Table key) (p : ρ → Bool) : Table key where
  rows := t.rows.filter p
  distinct := t.distinct.sublist (List.filter_sublist.map key)

theorem get_filter_of_pos {t : Table key} {p : ρ → Bool} {k : κ} {r : ρ}
    (present : t.get k = some r) (keep : p r = true) : (t.filter p).get k = some r := by
  obtain ⟨mem, here⟩ := get_eq_some_iff.mp present
  exact get_eq_some_iff.mpr ⟨List.mem_filter.mpr ⟨mem, keep⟩, here⟩

/-- `INSERT`; none: the key is taken. -/
def insert (t : Table key) (r : ρ) : Option (Table key) :=
  if new : t.get (key r) = none then some (t.add r new) else none

/-- `INSERT` one row after the other. -/
def insertAll (t : Table key) (rows : List ρ) : Option (Table key) := rows.foldlM insert t

theorem rows_of_insertAll {t u : Table key} {rows : List ρ} (done : t.insertAll rows = some u) :
    u.rows = t.rows ++ rows := by
  induction rows generalizing t with
  | nil =>
      cases done
      rw [List.append_nil]
  | cons r rows ih =>
      rw [insertAll, List.foldlM_cons] at done
      obtain ⟨next, added, more⟩ := Option.bind_eq_some_iff.mp done
      rw [insert] at added
      split at added
      · cases added
        rw [ih more, add, List.append_assoc, List.singleton_append]
      · cases added

theorem exists_insertAll {t : Table key} {rows : List ρ} (distinct : ((t.rows ++ rows).map key).Nodup) :
    ∃ u, t.insertAll rows = some u := by
  induction rows generalizing t with
  | nil => exact ⟨t, rfl⟩
  | cons r rows ih =>
      have new : t.get (key r) = none := get_eq_none_iff.mpr fun x mem same => by
        rw [List.map_append, List.nodup_append] at distinct
        exact distinct.2.2 (key x) (List.mem_map_of_mem mem) (key r)
          (List.mem_map_of_mem List.mem_cons_self) same
      have next : (((t.add r new).rows ++ rows).map key).Nodup := by
        rwa [add, List.append_assoc, List.singleton_append]
      obtain ⟨u, done⟩ := ih next
      refine ⟨u, ?_⟩
      rw [insertAll, List.foldlM_cons, insert, dif_pos new]
      exact done

/-- Where every item has its entry and every entry its item, reading the entries gives the
items, in some order. -/
theorem filterMap_perm {t : Table key} {α : Type} {items : List α} (distinct : items.Nodup)
    (place : α → κ) {read : ρ → Option α}
    (held : ∀ x ∈ items, ∃ r, t.get (place x) = some r ∧ read r = some x)
    (owned : ∀ r ∈ t.rows, ∃ x ∈ items, key r = place x) :
    (t.rows.filterMap read).Perm items := by
  -- what is read of an entry is the item it belongs to
  have item : ∀ r ∈ t.rows, ∀ x, read r = some x → x ∈ items ∧ key r = place x := by
    intro r mem x found
    obtain ⟨y, known, here⟩ := owned r mem
    obtain ⟨r', there, holds⟩ := held y known
    rw [← here, mem_rows_iff.mp mem] at there
    cases there
    cases holds.symm.trans found
    exact ⟨known, here⟩
  have apart : (t.rows.filterMap read).Nodup := by
    refine List.pairwise_filterMap.mpr (t.distinct.of_map.imp_of_mem ?_)
    intro r r' mem mem' other x found x' found' same
    have here := (item r mem x found).2
    have here' := (item r' mem' x' found').2
    rw [← same, ← here] at here'
    have twice := mem_rows_iff.mp mem'
    rw [here', mem_rows_iff.mp mem] at twice
    exact other (Option.some.inj twice)
  refine (List.perm_ext_iff_of_nodup apart distinct).mpr fun x => ?_
  rw [List.mem_filterMap]
  constructor
  · rintro ⟨r, mem, found⟩
    exact (item r mem x found).1
  · intro known
    obtain ⟨r, there, holds⟩ := held x known
    exact ⟨r, mem_of_get there, holds⟩

end Table

end Opensquid.Lib
