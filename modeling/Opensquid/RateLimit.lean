import Opensquid.Lib.Steps
import Opensquid.Lib.TokenBucket
import Mathlib.Data.Rat.Floor

/-!
# Pack rate limits

A token bucket for each pack, trigger and key is a row of one database. A check
reads the clock, and later runs one transaction: it refills the bucket for the time
since the stored `last_refill_ms`, takes a token and a concurrent slot if there are,
and stores its own clock reading as `last_refill_ms`. A release frees a slot.

A reading may be older than the stored one when its transaction commits. The
refill is then empty, but the stored time moves back and the time in between is
refilled twice (`staleCheck_overfills`). Without that, the checks allowed in any
interval are bounded as the bucket promises (`allowed_within`).
-/

namespace Opensquid.RateLimit

open Opensquid.Lib

/-! ## Configuration -/

inductive TriggerKind
  | toolCall
  | postToolCall
  | promptSubmit
  | sessionEnd
  | stop
  | sessionStart
  | schedule
  | webhook
  | inboundChannel
  | fileChanged
  deriving DecidableEq, Repr

inductive RateLimitPeriod
  | minute
  | hour
  | day
  deriving DecidableEq, Repr

def RateLimitPeriod.toMs : RateLimitPeriod → Nat
  | .minute => 60000
  | .hour => 3600000
  | .day => 86400000

structure RateLimitConfig where
  max : Nat
  per : RateLimitPeriod
  concurrent : Option Nat := none
  positive : 1 ≤ max

def RateLimitConfig.refillPerMs (config : RateLimitConfig) : ℚ := config.max / config.per.toMs

/-- Another slot is free under `concurrent ?? Infinity`. -/
def RateLimitConfig.hasSlot (config : RateLimitConfig) (count : Int) : Bool :=
  config.concurrent.all fun cap : Nat => count < (cap : Int)

structure BucketKey where
  packId : String
  triggerKind : TriggerKind
  key : String
  deriving DecidableEq, Repr

/-- The limits by pack and trigger; none means unlimited. -/
abbrev Limits := String → TriggerKind → Option RateLimitConfig

def Limits.of (limits : Limits) (key : BucketKey) : Option RateLimitConfig :=
  limits key.packId key.triggerKind

/-! ## Buckets -/

structure BucketRow where
  tokens : ℚ
  lastRefillMs : Int
  concurrentCount : Int

def clamp (value lo hi : ℚ) : ℚ :=
  if value < lo then lo else if hi < value then hi else value

inductive Denial
  | rateExceeded (retryAfterMs : Int)
  | concurrentExceeded (retryAfterMs : Int)
  | storageError
  deriving DecidableEq, Repr

/-- The transaction of `check`: the row it writes, and why it denies. -/
def checkRow (config : RateLimitConfig) (row : Option BucketRow) (now : Int) :
    BucketRow × Option Denial :=
  let baseTokens : ℚ := (row.map (·.tokens)).getD config.max
  let baseLastRefillMs := (row.map (·.lastRefillMs)).getD now
  let elapsed := max 0 (now - baseLastRefillMs)
  let refilled := clamp (baseTokens + elapsed * config.refillPerMs) 0 config.max
  let concurrent := (row.map (·.concurrentCount)).getD 0
  if config.hasSlot concurrent = false then
    (⟨refilled, now, concurrent⟩, some (.concurrentExceeded 0))
  else if refilled < 1 then
    (⟨refilled, now, concurrent⟩, some (.rateExceeded ⌈(1 - refilled) / config.refillPerMs⌉))
  else (⟨refilled - 1, now, concurrent + 1⟩, none)

/-- The transaction of `release`. -/
def releaseRow (row : BucketRow) : BucketRow :=
  { row with concurrentCount := max 0 (row.concurrentCount - 1) }

/-! ## The system -/

structure Sys where
  clock : Int
  buckets : BucketKey → Option BucketRow
  /-- The check a process is in: its bucket and its clock reading. -/
  checks : Nat → Option (BucketKey × Int)
  /-- The clock readings of the allowed checks of each bucket, latest commit first. -/
  allowed : BucketKey → List Int

def Sys.init (now : Int) : Sys where
  clock := now
  buckets _ := none
  checks _ := none
  allowed _ := []

inductive Event
  | tick (ms : Nat)
  /-- A process calls `check` on a limited bucket and reads the clock. -/
  | checkBegun (p : Nat) (key : BucketKey)
  /-- Its transaction commits. -/
  | checkCommitted (p : Nat)
  /-- Its transaction fails and is rolled back. -/
  | checkFailed (p : Nat)
  /-- The transaction of a `release` commits. -/
  | released (key : BucketKey)
  deriving Repr

/-- One event; `none` when it is not enabled. Calls on a bucket without a limit
touch nothing. -/
def Sys.step (limits : Limits) (s : Sys) : Event → Option Sys
  | .tick ms => some { s with clock := s.clock + ms }
  | .checkBegun p key =>
      match s.checks p, limits.of key with
      | none, some _ => some { s with checks := Function.update s.checks p (some (key, s.clock)) }
      | _, _ => none
  | .checkCommitted p =>
      match s.checks p with
      | none => none
      | some (key, now) =>
          match limits.of key with
          | none => none
          | some config =>
              let (row, denial) := checkRow config (s.buckets key) now
              some { s with
                buckets := Function.update s.buckets key (some row)
                checks := Function.update s.checks p none
                allowed := if denial.isSome then s.allowed
                  else Function.update s.allowed key (now :: s.allowed key) }
  | .checkFailed p =>
      if (s.checks p).isSome then some { s with checks := Function.update s.checks p none } else none
  | .released key =>
      match limits.of key, s.buckets key with
      | some _, some row =>
          some { s with buckets := Function.update s.buckets key (some (releaseRow row)) }
      | _, _ => none

/-! ## What is promised -/

/-- The allowed checks whose reading lies in the interval. -/
def Sys.allowedWithin (s : Sys) (key : BucketKey) (a b : Int) : Nat :=
  (s.allowed key).countP fun t => a ≤ t ∧ t ≤ b

/-- The bound of every interval, and the ranges of the stored numbers. -/
structure Sys.Bounded (s : Sys) (key : BucketKey) (config : RateLimitConfig) : Prop where
  within : ∀ a b : Int, a ≤ b →
    (s.allowedWithin key a b : ℚ) ≤ config.max + (b - a) * (config.max / config.per.toMs)
  tokens : ∀ row ∈ s.buckets key, 0 ≤ row.tokens ∧ row.tokens ≤ config.max
  concurrent : ∀ row ∈ s.buckets key, 0 ≤ row.concurrentCount ∧
    ∀ cap ∈ config.concurrent, row.concurrentCount ≤ cap

/-- A committing check has read the clock no earlier than the time its bucket was
last refilled to. -/
def ReadingsInOrder (s : Sys) : Event → Prop
  | .checkCommitted p =>
      ∀ check ∈ s.checks p, ∀ row ∈ s.buckets check.1, row.lastRefillMs ≤ check.2
  | _ => True

instance (s : Sys) (e : Event) : Decidable (ReadingsInOrder s e) := by
  cases e <;> unfold ReadingsInOrder <;> infer_instance

/-! ## The bucket of one key -/

open TokenBucket in
/-- The row and the readings of the allowed checks. -/
def Consistent (config : RateLimitConfig) (row : Option BucketRow) (allowed : List Int) : Prop :=
  match row with
  | none => allowed = []
  | some row =>
      Metered (config.max : ℚ) config.refillPerMs (allowed.map (↑)) row.tokens row.lastRefillMs ∧
        0 ≤ row.concurrentCount ∧ ∀ cap ∈ config.concurrent, row.concurrentCount ≤ cap

variable {config : RateLimitConfig} {row : Option BucketRow} {allowed : List Int} {now : Int}

theorem RateLimitConfig.refillPerMs_nonneg (config : RateLimitConfig) : 0 ≤ config.refillPerMs :=
  div_nonneg (Nat.cast_nonneg _) (Nat.cast_nonneg _)

theorem clamp_of_nonneg {value hi : ℚ} (nonneg : 0 ≤ value) : clamp value 0 hi = min value hi := by
  rw [clamp, if_neg (not_lt.mpr nonneg)]
  split
  · exact (min_eq_right (le_of_lt ‹_›)).symm
  · exact (min_eq_left (not_lt.mp ‹_›)).symm

open TokenBucket in
/-- What the check refills to is the bucket at the reading. -/
theorem Consistent.refilled (consistent : Consistent config row allowed)
    (later : ∀ r ∈ row, r.lastRefillMs ≤ now) :
    Metered (config.max : ℚ) config.refillPerMs (allowed.map (↑))
      (clamp ((row.map (·.tokens)).getD (config.max : ℚ) +
        (max 0 (now - (row.map (·.lastRefillMs)).getD now) : Int) * config.refillPerMs)
        0 config.max) now := by
  have rising := config.refillPerMs_nonneg
  cases row with
  | none =>
      cases consistent
      have capacity : (0 : ℚ) ≤ config.max := Nat.cast_nonneg _
      simp only [Option.map_none, Option.getD_none, sub_self, max_self, Int.cast_zero, zero_mul,
        add_zero, clamp_of_nonneg capacity, min_self]
      exact Metered.fresh capacity rising _
  | some r =>
      have elapsed : (0 : Int) ≤ now - r.lastRefillMs := sub_nonneg.mpr (later r rfl)
      have metered := consistent.1.refill rising (Int.cast_le.mpr (later r rfl))
      have gain : (0 : ℚ) ≤ r.tokens + ((now - r.lastRefillMs : Int) : ℚ) * config.refillPerMs :=
        add_nonneg consistent.1.nonneg (mul_nonneg (by exact_mod_cast elapsed) rising)
      simp only [Option.map_some, Option.getD_some, max_eq_right elapsed, clamp_of_nonneg gain]
      rw [TokenBucket.refill, ← Int.cast_sub] at metered
      exact metered

/-- A check in order keeps its bucket consistent. -/
theorem Consistent.check (consistent : Consistent config row allowed)
    (later : ∀ r ∈ row, r.lastRefillMs ≤ now) :
    let outcome := checkRow config row now
    Consistent config (some outcome.1)
      (if outcome.2.isSome then allowed else now :: allowed) := by
  have refilled := consistent.refilled later
  have count : 0 ≤ (row.map (·.concurrentCount)).getD 0 ∧
      ∀ cap ∈ config.concurrent, (row.map (·.concurrentCount)).getD 0 ≤ (cap : Int) := by
    cases row with
    | none => exact ⟨le_rfl, fun cap _ => Int.natCast_nonneg cap⟩
    | some r => exact consistent.2
  simp only [checkRow]
  split
  · exact ⟨refilled, count⟩
  · rename_i free
    split
    · exact ⟨refilled, count⟩
    · rename_i enough
      refine ⟨refilled.pay config.refillPerMs_nonneg (not_lt.mp enough),
        Int.add_nonneg count.1 Int.one_nonneg, ?_⟩
      intro cap limited
      rw [Bool.not_eq_false, RateLimitConfig.hasSlot, limited, Option.all_some,
        decide_eq_true_eq] at free
      exact free

theorem Consistent.release {r : BucketRow} (consistent : Consistent config (some r) allowed) :
    Consistent config (some (releaseRow r)) allowed := by
  obtain ⟨metered, nonneg, capped⟩ := consistent
  refine ⟨metered, le_max_left _ _, fun cap limited => ?_⟩
  have small := capped cap limited
  simp only [releaseRow]
  omega

/-! ## Every run -/

def Sys.Inv (limits : Limits) (s : Sys) : Prop :=
  ∀ key config, limits.of key = some config → Consistent config (s.buckets key) (s.allowed key)

theorem Sys.Inv.step {limits : Limits} {s t : Sys} {e : Event} (inv : s.Inv limits)
    (ordered : ReadingsInOrder s e) (fire : s.step limits e = some t) : t.Inv limits := by
  intro key config limited
  cases e with
  | tick ms =>
      cases fire
      exact inv key config limited
  | checkBegun p begun =>
      simp only [Sys.step] at fire
      split at fire <;> cases fire
      exact inv key config limited
  | checkCommitted p =>
      simp only [Sys.step] at fire
      split at fire
      · cases fire
      · rename_i checked now begun
        split at fire
        · cases fire
        · rename_i config' limited'
          cases fire
          by_cases same : key = checked
          · subst same
            cases limited.symm.trans limited'
            have kept := (inv key config limited).check (ordered (key, now) begun)
            simp only [Function.update_self] at kept ⊢
            split at kept <;> rename_i denied
            · rwa [if_pos denied]
            · rwa [if_neg denied, Function.update_self]
          · have kept := inv key config limited
            simp only [Function.update_of_ne same]
            split
            · exact kept
            · rwa [Function.update_of_ne same]
  | checkFailed p =>
      simp only [Sys.step] at fire
      split at fire <;> cases fire
      exact inv key config limited
  | released freed =>
      simp only [Sys.step] at fire
      split at fire
      · rename_i present
        cases fire
        by_cases same : key = freed
        · subst same
          have kept := inv key config limited
          rw [present] at kept
          simp only [Function.update_self]
          exact kept.release
        · simp only [Function.update_of_ne same]
          exact inv key config limited
      · cases fire

theorem Consistent.bounded {s : Sys} {key : BucketKey}
    (consistent : Consistent config (s.buckets key) (s.allowed key)) : s.Bounded key config := by
  cases present : s.buckets key with
  | none =>
      rw [present] at consistent
      replace consistent : s.allowed key = [] := consistent
      refine ⟨fun a b ordered => ?_, by rw [present]; nofun, by rw [present]; nofun⟩
      have grown := mul_nonneg (sub_nonneg.mpr (Int.cast_le.mpr ordered : (a : ℚ) ≤ b))
        config.refillPerMs_nonneg
      have capacity : (0 : ℚ) ≤ config.max := Nat.cast_nonneg _
      rw [Sys.allowedWithin, consistent, List.countP_nil, Nat.cast_zero]
      exact add_nonneg capacity grown
  | some r =>
      rw [present] at consistent
      obtain ⟨metered, count⟩ := consistent
      refine ⟨fun a b ordered => ?_, ?_, ?_⟩
      · have bound := metered.between a b (Int.cast_le.mpr ordered)
        rw [TokenBucket.within, List.countP_map] at bound
        refine le_trans (le_of_eq (congrArg _ (List.countP_congr fun t _ => ?_))) bound
        simp only [Function.comp_apply, Int.cast_le]
      · rw [present]
        rintro r ⟨⟩
        exact ⟨metered.nonneg, metered.le_max⟩
      · rw [present]
        rintro r ⟨⟩
        exact count

/-- In every run whose checks commit in order, the checks of a limited bucket are
bounded in every interval and the stored numbers stay in range. -/
theorem allowed_within {limits : Limits} {start : Int} {s : Sys}
    (run : Steps (Sys.step limits) ReadingsInOrder (Sys.init start) s) {key : BucketKey}
    {config : RateLimitConfig} (limited : limits.of key = some config) : s.Bounded key config := by
  have initial : (Sys.init start).Inv limits := fun _ _ _ => rfl
  exact (run.invariant initial (fun _ _ _ inv ordered fire => inv.step ordered fire)
    key config limited).bounded

/-! ## Two runs -/

/-- One scheduled run a minute, one at a time. -/
def oncePerMinute : RateLimitConfig where
  max := 1
  per := .minute
  concurrent := some 1
  positive := le_rfl

def scheduleKey : BucketKey := ⟨"pack", .schedule, "nightly"⟩

def scheduleLimits (config : RateLimitConfig) : Limits := fun packId kind =>
  if packId = "pack" ∧ kind = .schedule then some config else none

/-- Allowed, denied for want of a slot, released, denied for want of a token, and a
minute later allowed again. -/
def patientChecks : List Event :=
  [.checkBegun 0 scheduleKey, .checkCommitted 0, .checkBegun 1 scheduleKey, .checkCommitted 1,
    .released scheduleKey, .tick 30000, .checkBegun 0 scheduleKey, .checkCommitted 0,
    .tick 30000, .checkBegun 1 scheduleKey, .checkCommitted 1]

theorem allowed_within_patient :
    ∃ s, Steps (Sys.step (scheduleLimits oncePerMinute)) ReadingsInOrder (Sys.init 0) s ∧
      s.allowed scheduleKey = [60000, 0] ∧ s.Bounded scheduleKey oncePerMinute := by
  have replay : (runWhile (Sys.step (scheduleLimits oncePerMinute))
      (fun s e => decide (ReadingsInOrder s e)) (Sys.init 0) patientChecks).any
      (fun s => s.allowed scheduleKey = [60000, 0]) = true := by
    decide +kernel
  obtain ⟨s, reached, allowed⟩ := (Option.any_eq_true _ _).mp replay
  have run := Steps.of_runWhile (fun _ _ guard => of_decide_eq_true guard) reached
  exact ⟨s, run, of_decide_eq_true allowed, allowed_within run rfl⟩

/-- One scheduled run a minute. -/
def oncePerMinuteFreely : RateLimitConfig where
  max := 1
  per := .minute
  positive := le_rfl

/-- The check of process 1 reads the clock at 0 and commits after one that read it
a minute later. -/
def staleCheck : List Event :=
  [.checkBegun 0 scheduleKey, .checkCommitted 0, .checkBegun 1 scheduleKey, .tick 60000,
    .checkBegun 2 scheduleKey, .checkCommitted 2, .checkCommitted 1,
    .checkBegun 3 scheduleKey, .checkCommitted 3]

theorem staleCheck_overfills :
    ∃ s, Steps (Sys.step (scheduleLimits oncePerMinuteFreely)) AnyStep (Sys.init 0) s ∧
      s.allowedWithin scheduleKey 60000 60000 = 2 ∧
      ¬ s.Bounded scheduleKey oncePerMinuteFreely := by
  have replay : (runWhile (Sys.step (scheduleLimits oncePerMinuteFreely)) (fun _ _ => true)
      (Sys.init 0) staleCheck).any
      (fun s => s.allowedWithin scheduleKey 60000 60000 = 2) = true := by
    decide +kernel
  obtain ⟨s, reached, twice⟩ := (Option.any_eq_true _ _).mp replay
  have run : Steps (Sys.step (scheduleLimits oncePerMinuteFreely)) AnyStep (Sys.init 0) s :=
    Steps.of_runWhile (fun _ _ _ => trivial) reached
  refine ⟨s, run, of_decide_eq_true twice, fun bounded => ?_⟩
  have bound := bounded.within 60000 60000 le_rfl
  rw [of_decide_eq_true twice] at bound
  revert bound
  decide +kernel

end Opensquid.RateLimit
