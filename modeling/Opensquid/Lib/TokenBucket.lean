import Mathlib.Algebra.Order.Field.Basic
import Mathlib.Data.List.Count
import Mathlib.Tactic.Linarith

/-!
# Token buckets

A bucket of capacity `max` is refilled at `rate` per unit of time and pays one
token for each admission. `Metered` is what a bucket and the times of its
admissions owe each other; it is kept by refilling up to a later time and by
paying, and it bounds the admissions of every interval (`Metered.between`).
-/

namespace Opensquid.Lib.TokenBucket

variable {K : Type*} [Field K] [LinearOrder K] [IsStrictOrderedRing K]

/-- The admissions at or after a time. -/
def since (admitted : List K) (a : K) : Nat := admitted.countP fun t => a ≤ t

/-- The admissions of an interval. -/
def within (admitted : List K) (a b : K) : Nat := admitted.countP fun t => a ≤ t ∧ t ≤ b

/-- Tokens after a refill. -/
def refill (max rate tokens elapsed : K) : K := min (tokens + elapsed * rate) max

omit [Field K] [IsStrictOrderedRing K] in
theorem within_le_since (admitted : List K) (a b : K) : within admitted a b ≤ since admitted a :=
  List.countP_mono_left fun t _ inside => by
    simp only [decide_eq_true_eq] at inside ⊢
    exact inside.1

omit [Field K] [IsStrictOrderedRing K] in
theorem since_cons {a t : K} (admitted : List K) (early : a ≤ t) :
    since (t :: admitted) a = since admitted a + 1 := by
  simp only [since, List.countP_cons, early, decide_true, if_true]

omit [Field K] [IsStrictOrderedRing K] in
theorem within_cons_of_not {a b t : K} (admitted : List K) (outside : ¬ (a ≤ t ∧ t ≤ b)) :
    within (t :: admitted) a b = within admitted a b := by
  simp only [within, List.countP_cons, outside, decide_false, Bool.false_eq_true, if_false,
    add_zero]

/-- The bucket holds `tokens` since the time `last`, and admitted these. -/
structure Metered (max rate : K) (admitted : List K) (tokens last : K) : Prop where
  nonneg : 0 ≤ tokens
  le_max : tokens ≤ max
  before : ∀ t ∈ admitted, t ≤ last
  paid : ∀ a ≤ last, since admitted a + tokens ≤ max + (last - a) * rate
  between : ∀ a b, a ≤ b → (within admitted a b : K) ≤ max + (b - a) * rate

variable {max rate tokens last : K} {admitted : List K}

theorem Metered.fresh (capacity : 0 ≤ max) (rising : 0 ≤ rate) (now : K) :
    Metered max rate [] max now where
  nonneg := capacity
  le_max := le_rfl
  before := nofun
  paid a early := by
    have grown := mul_nonneg (sub_nonneg.mpr early) rising
    simp only [since, List.countP_nil, Nat.cast_zero, zero_add]
    linarith
  between a b ordered := by
    have grown := mul_nonneg (sub_nonneg.mpr ordered) rising
    simp only [within, List.countP_nil, Nat.cast_zero]
    linarith

/-- Refilling up to a later time. -/
theorem Metered.refill (metered : Metered max rate admitted tokens last) (rising : 0 ≤ rate)
    {now : K} (later : last ≤ now) :
    Metered max rate admitted (refill max rate tokens (now - last)) now where
  nonneg := by
    have gain := mul_nonneg (sub_nonneg.mpr later) rising
    have kept := metered.nonneg
    exact le_min (by linarith) (kept.trans metered.le_max)
  le_max := min_le_right _ _
  before t member := (metered.before t member).trans later
  paid a early := by
    have small : TokenBucket.refill max rate tokens (now - last) ≤ tokens + (now - last) * rate :=
      min_le_left _ _
    have capped : TokenBucket.refill max rate tokens (now - last) ≤ max := min_le_right _ _
    rcases le_or_gt a last with within | past
    · have owed := metered.paid a within
      linarith
    · -- nothing was admitted after `last`
      have none : since admitted a = 0 := List.countP_eq_zero.mpr fun t member => by
        rw [decide_eq_true_eq, not_le]
        exact (metered.before t member).trans_lt past
      have gain := mul_nonneg (sub_nonneg.mpr early) rising
      rw [none, Nat.cast_zero]
      linarith
  between := metered.between

/-- Paying for an admission at the bucket's time. -/
theorem Metered.pay (metered : Metered max rate admitted tokens last) (rising : 0 ≤ rate)
    (enough : 1 ≤ tokens) : Metered max rate (last :: admitted) (tokens - 1) last := by
  have paid : ∀ a ≤ last, (since (last :: admitted) a : K) + (tokens - 1) ≤
      max + (last - a) * rate := by
    intro a early
    have owed := metered.paid a early
    rw [since_cons admitted early, Nat.cast_succ]
    linarith
  have left : 0 ≤ tokens - 1 := sub_nonneg.mpr enough
  refine ⟨left, ?_, ?_, paid, ?_⟩
  · have capped := metered.le_max
    linarith
  · intro t member
    rcases List.mem_cons.mp member with rfl | earlier
    · exact le_rfl
    · exact metered.before t earlier
  · intro a b ordered
    by_cases inside : a ≤ last ∧ last ≤ b
    · have some : (within (last :: admitted) a b : K) ≤ since (last :: admitted) a :=
        Nat.cast_le.mpr (within_le_since _ a b)
      have owed := paid a inside.1
      have wider := mul_le_mul_of_nonneg_right (sub_le_sub_right inside.2 a) rising
      linarith
    · rw [within_cons_of_not admitted inside]
      exact metered.between a b ordered

end Opensquid.Lib.TokenBucket
