import Mathlib.Data.List.Count
import Mathlib.Data.List.Induction
import Mathlib.Order.MinMax
import Opensquid.Lib.RacingUpdates

/-!
# The progress floor

Counters of failed calls that warn, block or halt a loop of tool calls. Each call is observed by a
hook process of its own, which reads the counters, observes the call, and writes them back; hooks of
calls made at the same time overlap, and one that writes late undoes what others have counted.

* `observe_exact`: of the observations of one process, every action is the one that the numbers of
  failures and repeats give.
* `alarm_founded`: of hooks that overlap in any way, no action is above what the failures of the
  calls before give; it is that action where nothing interferes.
* `alarm_reached`: a loop of failing calls of one tool halts at the latest after `7 * (n + 1)` of
  them, if at most `n` others write while a hook has the counters.

The failures of the same arguments count together for all tools.
-/

namespace Opensquid.Guard.ProgressFloor

open Opensquid.Lib

/-! ## Observations -/

inductive Action
  | pass
  | warn
  | block
  | halt
  deriving DecidableEq, Repr

namespace Action

def severity : Action → Nat
  | pass => 0
  | warn => 1
  | block => 2
  | halt => 3

theorem severity_injective : Function.Injective severity := by
  intro a b same
  cases a <;> cases b <;> first | rfl | cases same

instance : LinearOrder Action := LinearOrder.lift' severity severity_injective

theorem pass_le (a : Action) : pass ≤ a := Nat.zero_le _

theorem le_halt (a : Action) : a ≤ halt := by
  cases a <;> decide

end Action

structure ToolObservation where
  tool : String
  argsHash : String
  failed : Bool
  idempotentSameResult : Bool
  deriving DecidableEq, Repr

def EXACT_WARN : Nat := 2
def EXACT_BLOCK : Nat := 5
def SAME_TOOL_WARN : Nat := 3
def SAME_TOOL_HALT : Nat := 8
def NO_PROGRESS_WARN : Nat := 2
def NO_PROGRESS_BLOCK : Nat := 5

/-- A counter that is not there is zero. -/
abbrev Counters := String → Nat

/-- The map with `k` counted once more. -/
def inc (m : Counters) (k : String) : Counters := Function.update m k (m k + 1)

structure FloorCounters where
  exact : Counters
  sameTool : Counters
  noProgress : Counters

def empty : FloorCounters := ⟨fun _ => 0, fun _ => 0, fun _ => 0⟩

/-- `ProgressFloor.observe` on the counters of a snapshot. -/
def observe (floor : FloorCounters) (call : ToolObservation) : Action × FloorCounters :=
  if call.failed then
    let exact := inc floor.exact call.argsHash
    let exactN := exact call.argsHash
    let noProgress := Function.update floor.noProgress call.argsHash 0
    let sameTool := inc floor.sameTool call.tool
    let sameN := sameTool call.tool
    (if SAME_TOOL_HALT ≤ sameN then .halt
      else if EXACT_BLOCK ≤ exactN then .block
      else if EXACT_WARN ≤ exactN ∨ SAME_TOOL_WARN ≤ sameN then .warn
      else .pass, ⟨exact, sameTool, noProgress⟩)
  else if call.idempotentSameResult then
    let noProgress := inc floor.noProgress call.argsHash
    let k := noProgress call.argsHash
    (if NO_PROGRESS_BLOCK ≤ k then .block
      else if NO_PROGRESS_WARN ≤ k then .warn
      else .pass, { floor with noProgress })
  else (.pass, floor)

/-! ## What the counters count -/

/-- Of one counter: `warn` from one bound on, `hard` from the other. -/
def escalate (warnAt hardAt : Nat) (hard : Action) (n : Nat) : Action :=
  if hardAt ≤ n then hard else if warnAt ≤ n then .warn else .pass

def exactFailures (calls : List ToolObservation) (argsHash : String) : Nat :=
  calls.countP fun call => call.failed && call.argsHash == argsHash

def toolFailures (calls : List ToolObservation) (tool : String) : Nat :=
  calls.countP fun call => call.failed && call.tool == tool

/-- The repeats since these arguments have last failed. -/
def repeats (calls : List ToolObservation) (argsHash : String) : Nat :=
  (calls.reverse.takeWhile fun call => !(call.failed && call.argsHash == argsHash)).countP
    fun call => !call.failed && call.idempotentSameResult && call.argsHash == argsHash

/-- The action that is due on `call`, the last of `calls`. -/
def due (calls : List ToolObservation) (call : ToolObservation) : Action :=
  if call.failed then
    max (escalate SAME_TOOL_WARN SAME_TOOL_HALT .halt (toolFailures calls call.tool))
      (escalate EXACT_WARN EXACT_BLOCK .block (exactFailures calls call.argsHash))
  else if call.idempotentSameResult then
    escalate NO_PROGRESS_WARN NO_PROGRESS_BLOCK .block (repeats calls call.argsHash)
  else .pass

section

variable {calls : List ToolObservation} {call : ToolObservation}

def counted (calls : List ToolObservation) : FloorCounters :=
  ⟨exactFailures calls, toolFailures calls, repeats calls⟩

theorem escalate_mono {warnAt hardAt n m : Nat} {hard : Action} (hardest : .warn ≤ hard)
    (le : n ≤ m) : escalate warnAt hardAt hard n ≤ escalate warnAt hardAt hard m := by
  unfold escalate
  split
  next reached =>
    rw [if_pos (Nat.le_trans reached le)]
  next =>
    split
    next reached =>
      split
      · exact hardest
      · rw [if_pos (Nat.le_trans reached le)]
    · exact Action.pass_le _

theorem exactFailures_concat (calls : List ToolObservation) (call : ToolObservation) :
    exactFailures (calls ++ [call]) =
      if call.failed then inc (exactFailures calls) call.argsHash else exactFailures calls := by
  funext argsHash
  rw [exactFailures, List.countP_append, List.countP_singleton]
  cases failed : call.failed with
  | false => rfl
  | true =>
      by_cases same : argsHash = call.argsHash
      · subst same
        simp [inc, exactFailures]
      · simp [inc, exactFailures, same, Ne.symm same]

theorem toolFailures_concat (calls : List ToolObservation) (call : ToolObservation) :
    toolFailures (calls ++ [call]) =
      if call.failed then inc (toolFailures calls) call.tool else toolFailures calls := by
  funext tool
  rw [toolFailures, List.countP_append, List.countP_singleton]
  cases failed : call.failed with
  | false => rfl
  | true =>
      by_cases same : tool = call.tool
      · subst same
        simp [inc, toolFailures]
      · simp [inc, toolFailures, same, Ne.symm same]

theorem repeats_concat (calls : List ToolObservation) (call : ToolObservation) :
    repeats (calls ++ [call]) =
      if call.failed then Function.update (repeats calls) call.argsHash 0
      else if call.idempotentSameResult then inc (repeats calls) call.argsHash
      else repeats calls := by
  funext argsHash
  rw [repeats, List.reverse_append, List.reverse_singleton, List.singleton_append,
    List.takeWhile_cons]
  cases failed : call.failed with
  | true =>
      by_cases same : argsHash = call.argsHash
      · subst same
        simp
      · simp [repeats, same, Ne.symm same, failed]
  | false =>
      cases same : call.idempotentSameResult with
      | false => simp [repeats, failed, same]
      | true =>
          by_cases key : argsHash = call.argsHash
          · subst key
            simp [repeats, inc, failed, same]
          · simp [repeats, inc, failed, same, key, Ne.symm key]

/-- The most severe of what the two counters give, as a chain of tests. -/
theorem severest (exactN sameN : Nat) :
    (if SAME_TOOL_HALT ≤ sameN then Action.halt
      else if EXACT_BLOCK ≤ exactN then .block
      else if EXACT_WARN ≤ exactN ∨ SAME_TOOL_WARN ≤ sameN then .warn
      else .pass) =
    max (escalate SAME_TOOL_WARN SAME_TOOL_HALT .halt sameN)
      (escalate EXACT_WARN EXACT_BLOCK .block exactN) := by
  unfold escalate SAME_TOOL_HALT EXACT_BLOCK EXACT_WARN SAME_TOOL_WARN
  split_ifs <;> first | rfl | omega

theorem observe_counted (calls : List ToolObservation) (call : ToolObservation) :
    observe (counted calls) call = (due (calls ++ [call]) call, counted (calls ++ [call])) := by
  unfold observe due counted
  rw [exactFailures_concat, toolFailures_concat, repeats_concat]
  cases call.failed with
  | true => exact Prod.ext (severest _ _) rfl
  | false => cases call.idempotentSameResult <;> rfl

theorem foldl_observe (calls : List ToolObservation) :
    calls.foldl (fun floor call => (observe floor call).2) empty = counted calls := by
  induction calls using List.reverseRecOn with
  | nil => rfl
  | append_singleton calls call ih =>
      rw [List.foldl_append, ih, List.foldl_cons, List.foldl_nil, observe_counted]

/-- The actions of one process are those that the counts give. -/
theorem observe_exact (calls : List ToolObservation) (call : ToolObservation) :
    (observe (calls.foldl (fun floor call => (observe floor call).2) empty) call).1 =
      due (calls ++ [call]) call := by
  rw [foldl_observe, observe_counted]

end

/-! ## Hooks -/

structure ObservedCall (Args : Type*) where
  tool : String
  args : Args
  exitCode : Int

section

variable {Args : Type*} (hash : Args → String)

/-- What a hook makes of its call; repeats without progress are not observed. -/
def observation (call : ObservedCall Args) : ToolObservation where
  tool := call.tool
  argsHash := hash call.args
  failed := call.exitCode != 0
  idempotentSameResult := false

/-- The action, and the counters that are written back. -/
def observeCall (floor : FloorCounters) (call : ObservedCall Args) : Action × FloorCounters :=
  observe floor (observation hash call)

/-- The hooks of one session. -/
abbrev FloorHooks (Args : Type*) := Racing Nat FloorCounters (ObservedCall Args) Action

/-- A run of hooks in which at most so many write while one has the counters. -/
abbrev HookRun (slack : Option Nat) (s : FloorHooks Args) : Prop :=
  Steps (Racing.access empty (observeCall hash)) (Racing.Spared slack) (Racing.opening empty) s

/-- The action that is due on a call after the calls before. -/
def dueOn (before : List (ObservedCall Args)) (call : ObservedCall Args) : Action :=
  due ((before ++ [call]).map (observation hash)) (observation hash call)

variable {hash}

theorem observeCall_exact (calls : List (ObservedCall Args)) (call : ObservedCall Args) :
    (observeCall hash
      (calls.foldl (fun floor call => (observeCall hash floor call).2) empty) call).1 =
      dueOn hash calls call := by
  have exact := observe_exact (calls.map (observation hash)) (observation hash call)
  rw [List.foldl_map] at exact
  rw [dueOn, List.map_append]
  exact exact

theorem dueOn_mono {calls calls' : List (ObservedCall Args)} (call : ObservedCall Args)
    (part : calls.Sublist calls') : dueOn hash calls call ≤ dueOn hash calls' call := by
  have part := (part.append (List.Sublist.refl [call])).map (observation hash)
  unfold dueOn due
  split
  · refine max_le_max ?_ ?_
    · exact escalate_mono (by decide) part.countP_le
    · exact escalate_mono (by decide) part.countP_le
  · exact Nat.le_refl _

/-- No action is above what the calls before give; where nothing interferes it is what they give. -/
theorem alarm_founded {slack : Option Nat} {s : FloorHooks Args} (run : HookRun hash slack s)
    {before after : List (ObservedCall Args × Action)} {entry : ObservedCall Args × Action}
    (split : s.done = before ++ entry :: after) :
    entry.2 ≤ dueOn hash (before.map Prod.fst) entry.1 ∧
      (slack = some 0 → entry.2 = dueOn hash (before.map Prod.fst) entry.1) := by
  obtain ⟨lasting, part, answer, bound⟩ := (Racing.sound run).done before entry after split
  rw [answer, observeCall_exact]
  refine ⟨dueOn_mono entry.1 part, fun none => ?_⟩
  rw [Racing.eq_of_lasting part (bound 0 none)]

def failingCall : ObservedCall Unit := ⟨"Bash", (), 1⟩

/-- A run of the accesses that ends with these answers. -/
theorem exists_run {slack : Option Nat} {accesses : List (Racing.Access Nat (ObservedCall Unit))}
    {done : List (ObservedCall Unit × Action)}
    (replay : (runWhile (Racing.access empty (observeCall fun _ => "[]"))
      (fun s e => decide (s.Spared slack e)) (Racing.opening empty) accesses).map Racing.done =
        some done) :
    ∃ s : FloorHooks Unit, HookRun (fun _ => "[]") slack s ∧ s.done = done := by
  obtain ⟨s, replay, answers⟩ := Option.map_eq_some_iff.mp replay
  exact ⟨s, Steps.of_runWhile (fun _ _ spared => of_decide_eq_true spared) replay, answers⟩

/-- Of three failures the first two overlap: the third is the second that is counted. -/
theorem alarm_founded_overlapping :
    Action.warn ≤ dueOn (fun _ => "[]") [failingCall, failingCall] failingCall := by
  obtain ⟨s, run, done⟩ := @exists_run none [.load 0 failingCall true, .load 1 failingCall true,
    .save 0, .save 1, .load 2 failingCall true, .save 2]
    [(failingCall, .pass), (failingCall, .pass), (failingCall, .warn)] rfl
  exact (@alarm_founded _ _ _ _ run [(failingCall, .pass), (failingCall, .pass)] [] _ done).1

theorem toolFailures_of_failing {calls : List (ObservedCall Args)} {tool : String}
    (failing : ∀ call ∈ calls, call.tool = tool ∧ call.exitCode ≠ 0) :
    toolFailures (calls.map (observation hash)) tool = calls.length := by
  rw [toolFailures, List.countP_map, List.countP_eq_length]
  intro call held
  simp [observation, failing call held]

/-- A loop of failing calls of one tool halts. -/
theorem alarm_reached {n : Nat} {s : FloorHooks Args} (run : HookRun hash (some n) s)
    {before after : List (ObservedCall Args × Action)} {entry : ObservedCall Args × Action}
    (split : s.done = before ++ entry :: after)
    (failing : ∀ call ∈ before.map Prod.fst ++ [entry.1],
      call.tool = entry.1.tool ∧ call.exitCode ≠ 0)
    (long : 7 * (n + 1) ≤ before.length) : entry.2 = .halt := by
  obtain ⟨lasting, part, answer, bound⟩ := (Racing.sound run).done before entry after split
  rw [answer, observeCall_exact]
  have seven : 7 ≤ lasting.length := by
    have within := bound n rfl
    by_contra few
    have most : (n + 1) * (lasting.length + 1) ≤ (n + 1) * 7 := Nat.mul_le_mul_left _ (by omega)
    omega
  have failures : toolFailures ((lasting ++ [entry.1]).map (observation hash)) entry.1.tool =
      lasting.length + 1 := by
    rw [toolFailures_of_failing fun call held =>
      failing call ((part.append (List.Sublist.refl _)).subset held), List.length_append]
    rfl
  have failed : (observation hash entry.1).failed = true := by
    simp [observation, failing entry.1 (List.mem_append_right _ List.mem_cons_self)]
  have reached : SAME_TOOL_HALT ≤ lasting.length + 1 := Nat.succ_le_succ seven
  rw [dueOn, due, if_pos failed, show (observation hash entry.1).tool = entry.1.tool from rfl,
    failures, escalate, if_pos reached]
  exact max_eq_left (Action.le_halt _)

theorem alarm_reached_serial : ∃ (s : FloorHooks Unit) (before : List (ObservedCall Unit × Action))
    (entry : ObservedCall Unit × Action), HookRun (fun _ => "[]") (some 0) s ∧
      s.done = before ++ [entry] ∧ before.length = 7 ∧ entry.2 = .halt := by
  let before : List (ObservedCall Unit × Action) :=
    [.pass, .warn, .warn, .warn, .block, .block, .block].map fun action => (failingCall, action)
  obtain ⟨s, run, done⟩ := @exists_run (some 0)
    ((List.range 8).flatMap fun i => [.load i failingCall true, .save i])
    (before ++ [(failingCall, .halt)]) rfl
  exact ⟨s, before, _, run, done, rfl, alarm_reached run done (by decide) (by decide)⟩

end

end Opensquid.Guard.ProgressFloor
