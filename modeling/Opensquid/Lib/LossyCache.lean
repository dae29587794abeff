import Mathlib.Data.List.Basic

/-!
# Caches that may forget

A cache may drop any entry at any time, but gives back only what was stored under the key. What is
computed through such a cache is what is computed without it, over every history of calls
(`memo_fst`, `memo_agrees`); an instance is the cache that keeps the most recently used entries.
-/

namespace Opensquid.Lib

/-- A cache by its operations; `Holds` bounds what it can give back. -/
structure LossyCache (κ α : Type) where
  State : Type
  empty : State
  get : State → κ → Option α × State
  set : State → κ → α → State
  Holds : State → κ → α → Prop
  holds_empty : ∀ {k a}, ¬ Holds empty k a
  holds_of_get : ∀ {s k a}, (get s k).1 = some a → Holds s k a
  holds_before_get : ∀ {s k k' a}, Holds (get s k).2 k' a → Holds s k' a
  holds_set : ∀ {s k a k' a'}, Holds (set s k a) k' a' → k' = k ∧ a' = a ∨ Holds s k' a'

namespace LossyCache

variable {κ α ε : Type} (cache : LossyCache κ α)

/-- What is found in the cache, or else computed and stored; failures are not stored. -/
def memo (f : κ → Except ε α) (s : cache.State) (k : κ) : Except ε α × cache.State :=
  match (cache.get s k).1 with
  | some a => (.ok a, (cache.get s k).2)
  | none =>
      match f k with
      | .ok a => (.ok a, cache.set (cache.get s k).2 k a)
      | .error e => (.error e, (cache.get s k).2)

/-- Everything that can be given back is what `f` computes. -/
def Agrees (f : κ → Except ε α) (s : cache.State) : Prop := ∀ k a, cache.Holds s k a → f k = .ok a

variable {cache} {f : κ → Except ε α} {s : cache.State}

theorem agrees_empty : cache.Agrees f cache.empty := fun _ _ held => absurd held cache.holds_empty

theorem memo_fst (agrees : cache.Agrees f s) (k : κ) : (cache.memo f s k).1 = f k := by
  unfold memo
  cases found : (cache.get s k).1 with
  | some a => exact (agrees k a (cache.holds_of_get found)).symm
  | none =>
      cases f k with
      | ok a => rfl
      | error e => rfl

theorem memo_agrees (agrees : cache.Agrees f s) (k : κ) : cache.Agrees f (cache.memo f s k).2 := by
  have got : cache.Agrees f (cache.get s k).2 := fun k' a held =>
    agrees k' a (cache.holds_before_get held)
  unfold memo
  cases (cache.get s k).1 with
  | some a => exact got
  | none =>
      cases computed : f k with
      | error e => exact got
      | ok a =>
          intro k' a' held
          rcases cache.holds_set held with ⟨rfl, rfl⟩ | before
          · exact computed
          · exact got k' a' before

end LossyCache

/-! ## The most recently used entries -/

section

variable {κ α : Type} [DecidableEq κ]

/-- The entries of other keys. -/
def withoutKey (k : κ) (entries : List (κ × α)) : List (κ × α) := entries.filter (·.1 ≠ k)

/-- A look into the entries; what is found comes first. -/
def lruGet (entries : List (κ × α)) (k : κ) : Option α × List (κ × α) :=
  match entries.lookup k with
  | some a => (some a, (k, a) :: withoutKey k entries)
  | none => (none, entries)

def lruSet (max : Nat) (entries : List (κ × α)) (k : κ) (a : α) : List (κ × α) :=
  ((k, a) :: withoutKey k entries).take max

theorem mem_of_lookup {entries : List (κ × α)} {k : κ} {a : α}
    (found : entries.lookup k = some a) : (k, a) ∈ entries := by
  obtain ⟨before, after, rfl, -⟩ := List.lookup_eq_some_iff.mp found
  exact List.mem_append_right _ List.mem_cons_self

theorem mem_of_mem_lruGet {entries : List (κ × α)} {k : κ} {entry : κ × α}
    (mem : entry ∈ (lruGet entries k).2) : entry ∈ entries := by
  unfold lruGet at mem
  cases found : entries.lookup k with
  | none =>
      rw [found] at mem
      exact mem
  | some a =>
      rw [found] at mem
      rcases List.mem_cons.mp mem with rfl | other
      · exact mem_of_lookup found
      · exact List.mem_of_mem_filter other

/-- At most `max` entries, the most recently used one first. -/
def lruCache (κ α : Type) [DecidableEq κ] (max : Nat) : LossyCache κ α where
  State := List (κ × α)
  empty := []
  get := lruGet
  set := lruSet max
  Holds entries k a := (k, a) ∈ entries
  holds_empty := List.not_mem_nil
  holds_of_get := by
    intro entries k a found
    unfold lruGet at found
    cases known : entries.lookup k with
    | none =>
        rw [known] at found
        cases found
    | some a' =>
        rw [known] at found
        cases found
        exact mem_of_lookup known
  holds_before_get := mem_of_mem_lruGet
  holds_set := by
    intro entries k a k' a' mem
    rcases List.mem_cons.mp (List.mem_of_mem_take mem) with same | other
    · exact .inl (Prod.mk.inj same)
    · exact .inr (List.mem_of_mem_filter other)

end

end Opensquid.Lib
